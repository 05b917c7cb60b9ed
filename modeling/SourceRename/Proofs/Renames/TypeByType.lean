import SourceRename.Proofs.Renames.MethodType
import SourceRename.Proofs.Table

/-!
# Type by type

The new descriptor of a method is written type by type, `MethodType.renamed`: each class gets its
new name, and dimensions, primitive types and the order of the arguments stay.  This is what
`Renames.renameDescriptor` makes of a well-formed descriptor, unless the class of an argument has a
closing parenthesis in its name.  Names of the JVM may have one, and Kotlin writes them in
backticks, but the argument list is taken to end at the first parenthesis that closes:

    (Ld;La)b;I)La)b;    is read as    (Ld;La    and    b;I)La)b;

Then the arguments in front of that class are renamed, and what is left is neither a type nor a row
of types and stays as it is.

A text that is no descriptor is cut, too, but never loses anything.  So it stays as it is if nothing
in it is the name of a renamed class (`Renames.Misses`). -/

namespace SourceRename

/-! ### Texts without renamed classes -/

namespace Renames

variable {r : Renames} {text type : List Char}

/-- No part of the text is the name of a class with a new name. -/
def Misses (r : Renames) (text : List Char) : Prop :=
  ∀ name : String, name.toList <:+: text → r.find? name = none

theorem mem_internalName_iff {name : String} {c : Char} (hdot : c ≠ '.') (hslash : c ≠ '/') :
    c ∈ (Naming.internalName name).toList ↔ c ∈ name.toList := by
  rw [Naming.internalName, Naming.replaceChar, String.toList_ofList, List.mem_map]
  constructor
  · rintro ⟨d, hd, rfl⟩
    split
    · next hd => exact absurd (if_pos hd) hslash
    · exact hd
  · intro hc
    exact ⟨c, hc, if_neg hdot⟩

/-- It is enough if each name in the table has a sign that the text has not. -/
theorem misses_of_not_subset (h : ∀ key ∈ r.classes.keys, ¬ key.toList ⊆ '.' :: '/' :: text) :
    r.Misses text := by
  intro name hname
  refine Table.get?_eq_none_iff.2 fun hmem => h _ hmem fun c hc => ?_
  by_cases hdot : c = '.'
  · exact hdot ▸ List.mem_cons_self
  by_cases hslash : c = '/'
  · exact hslash ▸ List.mem_cons_of_mem _ List.mem_cons_self
  have hmem : c ∈ text := hname.subset ((mem_internalName_iff hdot hslash).1 hc)
  exact List.mem_cons_of_mem _ (List.mem_cons_of_mem _ hmem)

theorem Misses.of_infix (h : r.Misses text) (hpart : type <:+: text) : r.Misses type :=
  fun name hname => h name (hname.trans hpart)

theorem renameType_of_unmapped (h : ∀ name, named? type = some name → r.find? name = none) :
    r.renameType type = type := by
  cases hname : named? type with
  | none => exact renameType_of_other hname
  | some name =>
    rw [renameType_of_class hname, className, h name hname, Option.map_none, Option.getD_none]
    exact (eq_classType hname).symm

theorem Misses.ofType?_eq (h : r.Misses type) : r.ofType? type = none :=
  Option.bind_eq_none_iff.2 fun name hname => h name (infix_of_named? hname)

theorem Misses.renameType_eq (h : r.Misses type) : r.renameType type = type :=
  renameType_of_unmapped fun name hname => h name (infix_of_named? hname)

theorem flatMap_renameType_of_unmapped {types : List (List Char)}
    (h : ∀ type ∈ types, r.renameType type = type) : types.flatMap r.renameType = types.flatten := by
  calc types.flatMap r.renameType = types.flatMap id := List.flatMap_congr h
    _ = types.flatten := by rw [List.flatMap_id]

theorem renameDescriptor_of_unmapped {descriptor : String}
    (h : ∀ name ∈ namesRead descriptor, r.find? name = none) :
    r.renameDescriptor descriptor = descriptor := by
  cases hsignature : signature? descriptor.toList with
  | none => rw [renameDescriptor, hsignature]
  | some parts =>
    obtain ⟨arguments, result⟩ := parts
    have hsame : ∀ type ∈ types arguments ++ [result], r.renameType type = type := by
      intro type htype
      refine renameType_of_unmapped fun name hname => h name ?_
      rw [namesRead, hsignature]
      exact List.mem_filterMap.2 ⟨type, htype, hname⟩
    have harguments : (types arguments).flatMap r.renameType = arguments := by
      rw [flatMap_renameType_of_unmapped fun type htype => hsame type (List.mem_append_left _ htype),
        flatten_types]
    rw [renameDescriptor, hsignature]
    dsimp only
    rw [harguments, hsame result (by simp), List.cons_append,
      ← (signature?_eq_some_iff.1 hsignature).1, String.ofList_toList]

/-- **A text without renamed classes** stays as it is, descriptor or not. -/
theorem Misses.renameDescriptor_eq {descriptor : String} (h : r.Misses descriptor.toList) :
    r.renameDescriptor descriptor = descriptor :=
  renameDescriptor_of_unmapped fun name hname => h name (infix_of_namesRead hname)

theorem renameType_bracket (r : Renames) (type : List Char) :
    r.renameType ('[' :: type) = '[' :: r.renameType type := by
  have hclass : r.ofType? ('[' :: type) = r.ofType? type := rfl
  have helement : element ('[' :: type) = element type := rfl
  rw [renameType, renameType, hclass, helement, List.takeWhile_cons_of_pos (by decide),
    List.cons_append]

end Renames

/-! ### New types -/

namespace FieldType

open Renames

variable {r : Renames}

def renamed (r : Renames) : FieldType → List Char
  | primitive p => [p.letter]
  | ofClass name => 'L' :: ((r.className name.text).toList ++ [';'])
  | array component => '[' :: component.renamed r

theorem renameType_text (r : Renames) (t : FieldType) : r.renameType t.text = t.renamed r := by
  induction t with
  | primitive p =>
    have hnone : named? (primitive p).text = none := (primitive p).named?_text
    exact renameType_of_other hnone
  | ofClass name =>
    have hname : named? (ofClass name).text = some name.text := (ofClass name).named?_text
    have hdims : dims (ofClass name).text = [] := rfl
    rw [renameType_of_class hname, hdims]
    rfl
  | array component ih => rw [text, renameType_bracket, ih, renamed]

def Unclosed (t : FieldType) : Prop := ∀ name ∈ t.className?, ')' ∉ name.toList

instance (t : FieldType) : Decidable t.Unclosed :=
  inferInstanceAs (Decidable (∀ name ∈ t.className?, ')' ∉ name.toList))

theorem close_mem_text_iff {t : FieldType} : ')' ∈ t.text ↔ ¬ t.Unclosed := by
  induction t with
  | primitive p => cases p <;> simp [text, Unclosed, className?, Primitive.letter]
  | ofClass name => simp [text, Unclosed, className?]
  | array component ih => simpa [text, Unclosed, className?] using ih

theorem close_notMem_flatMap_text {ts : List FieldType} (h : ∀ t ∈ ts, t.Unclosed) :
    ')' ∉ ts.flatMap text := by
  intro hmem
  obtain ⟨t, ht, hclose⟩ := List.mem_flatMap.1 hmem
  exact close_mem_text_iff.1 hclose (h t ht)

theorem types_flatMap_text (ts : List FieldType) (rest : List Char) :
    types (ts.flatMap text ++ rest) = ts.map text ++ types rest := by
  induction ts with
  | nil => rfl
  | cons t ts ih =>
    rw [List.flatMap_cons, List.append_assoc, t.ends_text, ih, List.map_cons, List.cons_append]

theorem flatMap_renameType_text (r : Renames) (ts : List FieldType) :
    (ts.map text).flatMap r.renameType = ts.flatMap (renamed r) := by
  rw [List.flatMap_map]
  exact List.flatMap_congr fun t _ => t.renameType_text r

end FieldType

namespace MethodType

open Renames

variable {r : Renames} {t : MethodType} {front back : List FieldType} {u : FieldType}

def renamedResult (r : Renames) (t : MethodType) : List Char :=
  (t.result.map (FieldType.renamed r)).getD ['V']

def renamed (r : Renames) (t : MethodType) : String :=
  String.ofList ('(' :: (t.arguments.flatMap (FieldType.renamed r) ++ ')' :: t.renamedResult r))

theorem renameType_resultText (r : Renames) (t : MethodType) :
    r.renameType t.resultText = t.renamedResult r := by
  rw [resultText, renamedResult]
  cases t.result with
  | none => exact renameType_of_other rfl
  | some type => exact type.renameType_text r

/-- **A descriptor is renamed type by type** if no class of an argument has a closing parenthesis in
its name. -/
theorem renameDescriptor_text (h : ∀ u ∈ t.arguments, u.Unclosed) :
    r.renameDescriptor t.text = t.renamed r := by
  have hsignature : signature? t.text.toList =
      some (t.arguments.flatMap FieldType.text, t.resultText) := by
    rw [signature?_eq_some_iff, text, String.toList_ofList]
    exact ⟨rfl, FieldType.close_notMem_flatMap_text h⟩
  have htypes : types (t.arguments.flatMap FieldType.text) = t.arguments.map FieldType.text := by
    have hrow := FieldType.types_flatMap_text t.arguments []
    rwa [List.append_nil, show types [] = [] from rfl, List.append_nil] at hrow
  rw [renameDescriptor, hsignature]
  dsimp only
  rw [htypes, FieldType.flatMap_renameType_text, renameType_resultText, List.cons_append, renamed]

/-! ### A parenthesis in a name -/

/-- The descriptor from some argument on. -/
def behind (t : MethodType) (back : List FieldType) : List Char :=
  back.flatMap FieldType.text ++ ')' :: t.resultText

def renamedBehind (r : Renames) (t : MethodType) (back : List FieldType) : List Char :=
  back.flatMap (FieldType.renamed r) ++ ')' :: t.renamedResult r

/-- What is read as arguments behind those that have no parenthesis: a class that does not end. -/
theorem types_of_cut {pre post : List Char} (hu : u.text = pre ++ ')' :: post) :
    (types (front.flatMap FieldType.text ++ pre)).flatMap r.renameType =
      front.flatMap (FieldType.renamed r) ++ pre := by
  have hno : ';' ∉ pre := by
    intro hmem
    refine u.end_notMem_dropLast ?_
    rw [hu, List.dropLast_append_of_ne_nil (List.cons_ne_nil _ _)]
    exact List.mem_append_left _ hmem
  have hsame : ∀ type ∈ types pre, r.renameType type = type := by
    intro type htype
    refine renameType_of_unmapped fun name hname => ?_
    have hend : ';' ∈ pre :=
      flatten_types pre ▸ List.mem_flatten.2 ⟨type, htype, end_mem_of_named? hname⟩
    exact absurd hend hno
  rw [FieldType.types_flatMap_text, List.flatMap_append, FieldType.flatMap_renameType_text,
    flatMap_renameType_of_unmapped hsame, flatten_types]

/-- What is read as the result goes on behind a semicolon, so it is no type of a class. -/
theorem result_of_cut {pre post : List Char} (hends : ∀ name : String, ';' ∈ name.toList →
      r.find? name = none) (hu : u.text = pre ++ ')' :: post) :
    r.renameType (post ++ t.behind back) = post ++ t.behind back := by
  refine renameType_of_unmapped fun name hname => hends name (end_mem_name hname ?_)
  rw [List.dropLast_append_of_ne_nil (by simp [behind])]
  exact List.mem_append_left _ (FieldType.end_mem_of_close hu)

/-- **Behind a parenthesis in a name** nothing is renamed. -/
theorem renameDescriptor_of_cut (hends : ∀ name : String, ';' ∈ name.toList → r.find? name = none)
    (harguments : t.arguments = front ++ u :: back) (hfront : ∀ v ∈ front, v.Unclosed)
    (hu : ¬ u.Unclosed) : r.renameDescriptor t.text =
      String.ofList ('(' :: (front.flatMap (FieldType.renamed r) ++ t.behind (u :: back))) := by
  obtain ⟨pre, post, hcut, hpre⟩ : ∃ pre post, u.text = pre ++ ')' :: post ∧ ')' ∉ pre :=
    ⟨_, _, eq_append_first (FieldType.close_mem_text_iff.2 hu), notMem_takeWhile⟩
  have hbehind : t.behind (u :: back) = pre ++ ')' :: (post ++ t.behind back) := by
    rw [behind, List.flatMap_cons, hcut, behind]
    simp
  have hsignature : signature? t.text.toList =
      some (front.flatMap FieldType.text ++ pre, post ++ t.behind back) := by
    rw [signature?_eq_some_iff, List.mem_append, not_or]
    refine ⟨?_, FieldType.close_notMem_flatMap_text hfront, hpre⟩
    have htext : t.text.toList = '(' :: (front.flatMap FieldType.text ++ t.behind (u :: back)) := by
      rw [text, String.toList_ofList, harguments, List.flatMap_append, List.append_assoc, behind]
    rw [htext, hbehind, List.append_assoc]
  rw [renameDescriptor, hsignature]
  dsimp only
  rw [types_of_cut hcut, result_of_cut hends hcut, hbehind, List.cons_append, List.append_assoc]

/-- **Descriptors are renamed type by type.**

Let no class of an argument have a closing parenthesis in its name.  Then the descriptor is renamed
type by type: each class gets its new name where there is one, and all else stays.

Otherwise the arguments in front of the first such class are renamed, and that class and what is
behind it stay as they are, if no class with a semicolon in its name has a new one.  So the
descriptor is renamed type by type if and only if nothing was to be changed there.

And a text in which no class has a new name stays as it is, whether it is a descriptor or not. -/
theorem renameDescriptor_type_by_type (r : Renames) :
    (∀ t : MethodType, (∀ u ∈ t.arguments, u.Unclosed) → r.renameDescriptor t.text = t.renamed r) ∧
    ((∀ name : String, ';' ∈ name.toList → r.find? name = none) →
      ∀ (t : MethodType) (front : List FieldType) (u : FieldType) (back : List FieldType),
        t.arguments = front ++ u :: back → (∀ v ∈ front, v.Unclosed) → ¬ u.Unclosed →
          r.renameDescriptor t.text =
            String.ofList ('(' :: (front.flatMap (FieldType.renamed r) ++ t.behind (u :: back))) ∧
          (r.renameDescriptor t.text = t.renamed r ↔
            t.renamedBehind r (u :: back) = t.behind (u :: back))) ∧
    ∀ descriptor : String, r.Misses descriptor.toList →
      r.renameDescriptor descriptor = descriptor := by
  refine ⟨fun t => renameDescriptor_text, fun hends t front u back harguments hfront hu => ?_,
    fun descriptor => Misses.renameDescriptor_eq⟩
  have hcut := renameDescriptor_of_cut hends harguments hfront hu
  refine ⟨hcut, ?_⟩
  have hrenamed : t.renamed r = String.ofList
      ('(' :: (front.flatMap (FieldType.renamed r) ++ t.renamedBehind r (u :: back))) := by
    rw [renamed, harguments, List.flatMap_append, List.append_assoc, renamedBehind]
  rw [hcut, hrenamed, String.ofList_inj, List.cons.injEq, List.append_cancel_left_eq]
  simp [eq_comm]

/-! ### Two classes, one with a parenthesis -/

/-- The class `d` becomes `e`, and the class `a)b` becomes `c`. -/
def parenthesized : Renames := (Renames.empty.declare "d" "e" id).declare "a)b" "c" id

def plainClass : FieldType := .ofClass ⟨"d", by decide, by decide⟩

def closedClass : FieldType := .ofClass ⟨"a)b", by decide, by decide⟩

theorem find?_parenthesized_of_end {name : String} (h : ';' ∈ name.toList) :
    parenthesized.find? name = none := by
  have hkeys : ∀ key ∈ parenthesized.classes.keys, ';' ∉ key.toList := by decide
  refine Table.get?_eq_none_iff.2 fun hmem => hkeys _ hmem ?_
  exact (mem_internalName_iff (by decide) (by decide)).2 h

/-- Descriptors in which no argument has the parenthesis and in which the second one has it, and a
text with neither class. -/
theorem parenthesized_renamed :
    parenthesized.renameDescriptor "(I[[Ld;)La)b;" = "(I[[Le;)Lc;" ∧
    parenthesized.renameDescriptor "(Ld;La)b;Ld;)V" = "(Le;La)b;Ld;)V" ∧
    parenthesized.renameDescriptor "([é)(L" = "([é)(L" := by
  obtain ⟨hplain, hcut, hmisses⟩ := renameDescriptor_type_by_type parenthesized
  refine ⟨?_, ?_, ?_⟩
  · exact hplain ⟨[.primitive .int, .array (.array plainClass)], some closedClass⟩ (by decide)
  · exact (hcut (fun name => find?_parenthesized_of_end)
      ⟨[plainClass, closedClass, plainClass], none⟩ [plainClass] closedClass [plainClass] rfl
      (by decide) (by decide)).1
  · exact hmisses _ (misses_of_not_subset (by decide))

/-- **The class of an argument keeps its name** if that has a closing parenthesis, although fields
and results of the class are renamed. -/
theorem closed_argument_kept :
    parenthesized.renameType "La)b;".toList = "Lc;".toList ∧
    parenthesized.renameDescriptor "()La)b;" = "()Lc;" ∧
    parenthesized.renameDescriptor "(La)b;)V" = "(La)b;)V" ∧
    ¬ ∀ (r : Renames) (t : MethodType), r.renameDescriptor t.text = t.renamed r := by
  refine ⟨by decide, by decide, by decide, fun h => ?_⟩
  exact absurd (h parenthesized ⟨[closedClass], none⟩) (by decide)

end MethodType

end SourceRename
