import SourceRename.Proofs.Renames.Descriptor
import SourceRename.Symbol.JavaType

/-!
# Field descriptors

A field descriptor is a row of `[`, one for each dimension, and behind it the letter of a primitive
type, or `L`, the name of a class and `;` (`FieldDescriptor`).  `JavaType.descriptor?` writes a type
in this form and `JavaType.ofDescriptor?` reads it.

Types keep class names with dots, and descriptors with slashes.  Writing turns dots into slashes and
reading turns slashes into dots, so a type comes back unless a class in it has a slash in its name,
and a text comes back unless it has a dot (`descriptor_round_trip`).

Reading takes a text apart from its two ends: whatever stands between `L` and the last `;` is the
name of a class.  So all field descriptors are read, but of texts that are none those are read, too,
in which that name is not one that classes have:

    LA;LB;    is read as the class named    A;LB

Apart from these, the texts that are read are the field descriptors (`read_iff_descriptor`).
-/

namespace SourceRename

/-- A field descriptor, where `Name` says which names classes have. -/
inductive FieldDescriptor (Name : List Char → Prop) : List Char → Prop
  | primitive (p : Primitive) : FieldDescriptor Name [p.letter]
  | ofClass {name : List Char} : Name name → FieldDescriptor Name ('L' :: (name ++ [';']))
  | array {d : List Char} : FieldDescriptor Name d → FieldDescriptor Name ('[' :: d)

namespace FieldDescriptor

variable {Name : List Char → Prop} {name d : List Char}

theorem class_iff : FieldDescriptor Name ('L' :: (name ++ [';'])) ↔ Name name := by
  refine ⟨fun h => ?_, .ofClass⟩
  generalize htext : 'L' :: (name ++ [';']) = text at h
  cases h with
  | primitive p => simp at htext
  | ofClass hname =>
    obtain rfl : name = _ := List.append_cancel_right (List.cons.inj htext).2
    exact hname
  | array h => exact absurd (List.cons.inj htext).1 (by decide)

theorem array_iff : FieldDescriptor Name ('[' :: d) ↔ FieldDescriptor Name d := by
  refine ⟨fun h => ?_, .array⟩
  generalize htext : '[' :: d = text at h
  cases h with
  | primitive p => cases p <;> exact absurd (List.cons.inj htext).1 (by decide)
  | ofClass hname => exact absurd (List.cons.inj htext).1 (by decide)
  | array h =>
    obtain rfl := (List.cons.inj htext).2
    exact h

end FieldDescriptor

namespace JavaType

open Renames (named?)

variable {Name : List Char → Prop} {d name : List Char} {t : JavaType}

/-! ### What is read -/

theorem ofDescriptor?_letter (p : Primitive) : ofDescriptor? [p.letter] = some (.primitive p) := by
  cases p <;> rfl

theorem ofDescriptor?_class (name : List Char) : ofDescriptor? ('L' :: (name ++ [';'])) =
    some (.classType (Naming.replaceChar '/' '.' (String.ofList name))) := by
  rw [ofDescriptor?, if_pos List.getLast?_concat, List.dropLast_concat]

theorem isSome_ofDescriptor? (h : FieldDescriptor Name d) : (ofDescriptor? d).isSome := by
  induction h with
  | primitive p => rw [ofDescriptor?_letter, Option.isSome_some]
  | ofClass => rw [ofDescriptor?_class, Option.isSome_some]
  | array _ ih => rwa [ofDescriptor?, Option.isSome_map]

/-- What is read is a field descriptor, as far as any text may name a class. -/
theorem descriptor_of_isSome (h : (ofDescriptor? d).isSome) : FieldDescriptor (fun _ => True) d := by
  fun_induction ofDescriptor? d with
  | case1 => exact absurd h Bool.false_ne_true
  | case2 cs ih =>
    rw [Option.isSome_map] at h
    exact .array (ih h)
  | case3 cs hend =>
    rw [← List.dropLast_append_getLast? _ hend]
    exact .ofClass trivial
  | case4 => exact absurd h Bool.false_ne_true
  | case5 c =>
    rw [Option.isSome_map, Primitive.ofLetter?, List.find?_isSome] at h
    obtain ⟨p, -, hletter⟩ := h
    rw [← beq_iff_eq.1 hletter]
    exact .primitive p
  | case6 => exact absurd h Bool.false_ne_true

/-! ### Writing and reading -/

/-- No class in the type has a slash in its name, and it is not the type of `null`. -/
def Dotted : JavaType → Prop
  | .primitive _ => True
  | .classType name => '/' ∉ name.toList
  | .array c => c.Dotted
  | .null => False

theorem read_written_iff (t : JavaType) : t.descriptor?.bind ofDescriptor? = some t ↔ t.Dotted := by
  induction t with
  | primitive p => exact iff_of_true (ofDescriptor?_letter p) trivial
  | classType name =>
    have hread := ofDescriptor?_class (Naming.internalName name).toList
    rw [String.ofList_toList, Naming.internalName, Naming.replaceChar_replaceChar] at hread
    rw [descriptor?, Option.bind_some, List.cons_append, Naming.internalName, hread,
      Option.some.injEq, classType.injEq, Dotted, Naming.replaceChar_eq_self_iff (by decide)]
  | array c ih =>
    have harray : (array c).descriptor?.bind ofDescriptor? =
        (c.descriptor?.bind ofDescriptor?).map array := by
      rw [descriptor?]
      cases c.descriptor? <;> rfl
    rw [harray, Dotted, ← ih, Option.map_eq_some_iff]
    simp
  | null => exact iff_of_false (by simp [descriptor?]) id

theorem written_read (h : FieldDescriptor Name d) :
    (ofDescriptor? d).bind descriptor? = some (Naming.internalName (String.ofList d)).toList := by
  rw [Naming.internalName, Naming.replaceChar, String.toList_ofList, String.toList_ofList]
  induction h with
  | primitive p => cases p <;> rfl
  | @ofClass name _ =>
    rw [ofDescriptor?_class, Option.bind_some, descriptor?, Naming.internalName,
      Naming.replaceChar_replaceChar]
    simp [Naming.replaceChar]
  | @array d _ ih =>
    calc ((ofDescriptor? d).map array).bind descriptor?
        = ((ofDescriptor? d).bind descriptor?).map ('[' :: ·) := by
          cases ofDescriptor? d <;> rfl
      _ = _ := by
          rw [ih]
          rfl

/-- **Descriptors and types** come back from each other.  A type is read as it was written if and
only if no class in it has a slash in its name and it is not the type of `null`, which has no
descriptor.  A text that is read is written as it was if and only if it has no dot. -/
theorem descriptor_round_trip :
    (∀ t : JavaType, t.descriptor?.bind ofDescriptor? = some t ↔ t.Dotted) ∧
    ∀ (d : List Char) (t : JavaType), ofDescriptor? d = some t →
      (t.descriptor? = some d ↔ '.' ∉ d) := by
  refine ⟨read_written_iff, fun d t h => ?_⟩
  have hwritten : t.descriptor? = some (Naming.internalName (String.ofList d)).toList := by
    have hread := written_read (descriptor_of_isSome (Option.isSome_of_eq_some h))
    rwa [h, Option.bind_some] at hread
  rw [hwritten, Option.some.injEq]
  calc (Naming.internalName (String.ofList d)).toList = d
      ↔ Naming.internalName (String.ofList d) = String.ofList d := by
        rw [← String.toList_inj, String.toList_ofList]
    _ ↔ '.' ∉ d := by
        rw [Naming.internalName, Naming.replaceChar_eq_self_iff (by decide), String.toList_ofList]

/-- Arrays of a nested class, in both forms. -/
theorem nested_round_trip :
    (array (array (classType "a.pkg.A$Inner"))).descriptor?.bind ofDescriptor? =
      some (array (array (classType "a.pkg.A$Inner"))) ∧
    ofDescriptor? "[[La/pkg/A$Inner;".toList = some (array (array (classType "a.pkg.A$Inner"))) ∧
    (array (array (classType "a.pkg.A$Inner"))).descriptor? = some "[[La/pkg/A$Inner;".toList := by
  have hread : ofDescriptor? "[[La/pkg/A$Inner;".toList =
      some (array (array (classType "a.pkg.A$Inner"))) := by decide
  have hdotted : (array (array (classType "a.pkg.A$Inner"))).Dotted := by
    show '/' ∉ "a.pkg.A$Inner".toList
    decide
  obtain ⟨hwritten, htext⟩ := descriptor_round_trip
  exact ⟨(hwritten _).2 hdotted, hread, (htext _ _ hread).2 (by decide)⟩

/-! ### Which texts are read -/

/-- It is the name of the class that makes a text that is read a field descriptor. -/
theorem descriptor_iff_named (h : FieldDescriptor (fun _ => True) d) :
    FieldDescriptor Name d ↔ ∀ name ∈ named? d, Name name.toList := by
  induction h with
  | primitive p =>
    have hnone : named? [p.letter] = none := by cases p <;> rfl
    exact iff_of_true (.primitive p) (by simp [hnone])
  | @ofClass name _ =>
    have hsome : named? ('L' :: (name ++ [';'])) = some (String.ofList name) := by
      have hno : ∀ c ∈ ([] : List Char), c = '[' := nofun
      have hclass := Renames.named?_classType hno (String.ofList name)
      rwa [Renames.classType, String.toList_ofList] at hclass
    rw [FieldDescriptor.class_iff, hsome]
    simp
  | array _ ih => rw [FieldDescriptor.array_iff, ih]; rfl

theorem descriptor_of_named {name : String} (h : named? d = some name) :
    FieldDescriptor (fun _ => True) d := by
  have hbrackets : ∀ c ∈ Renames.dims d, c = '[' := fun c hc => Renames.eq_bracket_of_mem_dims hc
  rw [Renames.eq_classType h]
  generalize Renames.dims d = brackets at hbrackets
  induction brackets with
  | nil => exact .ofClass trivial
  | cons c brackets ih =>
    rw [hbrackets c List.mem_cons_self]
    exact .array (ih fun c hc => hbrackets c (List.mem_cons_of_mem _ hc))

/-- **What is read** is every field descriptor and, besides, every text in which what stands between
`L` and the last sign is not the name of a class.  So a text is read just in case it is a field
descriptor, unless it is one of these. -/
theorem read_iff_descriptor (Name : List Char → Prop) (d : List Char) :
    ((ofDescriptor? d).isSome ↔
      FieldDescriptor Name d ∨ ∃ name ∈ named? d, ¬ Name name.toList) ∧
    (((ofDescriptor? d).isSome ↔ FieldDescriptor Name d) ↔
      ∀ name ∈ named? d, Name name.toList) := by
  have hread (h : (ofDescriptor? d).isSome) :
      FieldDescriptor Name d ↔ ∀ name ∈ named? d, Name name.toList :=
    descriptor_iff_named (descriptor_of_isSome h)
  have hnamed {name : String} (h : name ∈ named? d) : (ofDescriptor? d).isSome :=
    isSome_ofDescriptor? (descriptor_of_named h)
  refine ⟨⟨fun h => ?_, ?_⟩, fun hiff name hname => ?_, fun hall => ?_⟩
  · by_cases hall : ∀ name ∈ named? d, Name name.toList
    · exact .inl ((hread h).2 hall)
    · exact .inr (by simpa using hall)
  · rintro (h | ⟨name, hname, -⟩)
    · exact isSome_ofDescriptor? h
    · exact hnamed hname
  · exact (hread (hnamed hname)).1 (hiff.1 (hnamed hname)) name hname
  · exact ⟨fun h => (hread h).2 hall, isSome_ofDescriptor?⟩

/-- The name has neither the sign that ends a descriptor nor the one that begins an array. -/
def Undelimited (name : List Char) : Prop := ';' ∉ name ∧ '[' ∉ name

instance (name : List Char) : Decidable (Undelimited name) :=
  inferInstanceAs (Decidable (_ ∧ _))

/-- Arrays of a class and of numbers are read, and they are field descriptors. -/
theorem dimensions_read :
    (ofDescriptor? "[[La/pkg/A;".toList).isSome ∧
    FieldDescriptor Undelimited "[[La/pkg/A;".toList ∧ FieldDescriptor Undelimited "[D".toList := by
  obtain ⟨-, hclass⟩ := read_iff_descriptor Undelimited "[[La/pkg/A;".toList
  obtain ⟨-, hnumber⟩ := read_iff_descriptor Undelimited "[D".toList
  have hread : (ofDescriptor? "[[La/pkg/A;".toList).isSome := by decide
  exact ⟨hread, (hclass.2 (by decide)).1 hread, (hnumber.2 (by decide)).1 (by decide)⟩

/-- **Two descriptors in a row are read** as one if the first one begins with `L`, although two
letters in a row are not. -/
theorem classes_read_in_a_row :
    ofDescriptor? "LA;LB;".toList = some (classType "A;LB") ∧
    FieldDescriptor Undelimited "LA;".toList ∧ FieldDescriptor Undelimited "LB;".toList ∧
    ¬ FieldDescriptor Undelimited "LA;LB;".toList ∧
    ofDescriptor? "IZ".toList = none ∧
    ¬ ∀ d, (ofDescriptor? d).isSome ↔ FieldDescriptor Undelimited d := by
  have hread : ofDescriptor? "LA;LB;".toList = some (classType "A;LB") := by decide
  have hrow : ¬ FieldDescriptor Undelimited "LA;LB;".toList := by
    show ¬ FieldDescriptor Undelimited ('L' :: ("A;LB".toList ++ [';']))
    rw [FieldDescriptor.class_iff]
    decide
  refine ⟨hread, ?_, ?_, hrow, by decide, fun h => hrow ((h _).1 ?_)⟩
  · exact @FieldDescriptor.ofClass Undelimited ['A'] (by decide)
  · exact @FieldDescriptor.ofClass Undelimited ['B'] (by decide)
  · rw [hread, Option.isSome_some]

end JavaType

end SourceRename
