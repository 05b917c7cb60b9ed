import SourceRename.Proofs.Renames.Descriptor
import SourceRename.Symbol.JavaType

/-!
# Well-formed descriptors

A `MethodType` is what a well-formed descriptor with slashes in its names says, and `text` is that
descriptor.  Reading it again finds the types it was written from, as long as no class name has a
closing parenthesis.  Where one has, the argument list is taken to end there.  Still, what is read
is the name of a class of the descriptor, or has a semicolon and is the name of none (`named_text`).
-/

namespace SourceRename

/-- A class name as descriptors spell it: with slashes, and without the sign that ends it. -/
structure InternalName where
  text : String
  no_dot : '.' ∉ text.toList
  no_end : ';' ∉ text.toList

inductive FieldType
  | primitive (type : Primitive)
  | ofClass (name : InternalName)
  | array (component : FieldType)

/-- The types of arguments and result; without a result, the method returns nothing. -/
structure MethodType where
  arguments : List FieldType
  result : Option FieldType

namespace FieldType

open Renames

def text : FieldType → List Char
  | primitive p => [p.letter]
  | ofClass name => 'L' :: (name.text.toList ++ [';'])
  | array component => '[' :: component.text

def className? : FieldType → Option String
  | primitive _ => none
  | ofClass name => some name.text
  | array component => component.className?

theorem closes_letter (p : Primitive) : closes false p.letter = true := by
  cases p <;> rfl

/-- Wherever the reader begins a type, it reads one type and no more. -/
theorem ends_of_reads (t : FieldType) {current : List Char} (h : Reads current false) :
    Ends (current.reverse ++ t.text) := by
  induction t generalizing current with
  | primitive p =>
    have hends := h.closes (closes_letter p)
    rwa [List.reverse_cons] at hends
  | ofClass name =>
    have hclass : Reads ('L' :: current) true := h.goes rfl
    have hends := (hclass.append name.no_end).closes (c := ';') rfl
    simpa [text] using hends
  | array component ih =>
    have hbracket : Reads ('[' :: current) false := h.goes rfl
    simpa [text] using ih hbracket

theorem ends_text (t : FieldType) : Ends t.text := by
  have hstart : Reads [] false := fun _ => rfl
  exact t.ends_of_reads hstart

theorem named?_text (t : FieldType) : named? t.text = t.className? := by
  induction t with
  | primitive p => cases p <;> rfl
  | ofClass name =>
    have hno : ∀ c ∈ ([] : List Char), c = '[' := nofun
    exact named?_classType hno name.text
  | array component ih => exact ih

theorem text_ne_nil (t : FieldType) : t.text ≠ [] := by
  cases t <;> exact List.cons_ne_nil _ _

theorem end_notMem_dropLast (t : FieldType) : ';' ∉ t.text.dropLast := by
  induction t with
  | primitive p => exact List.not_mem_nil
  | ofClass name =>
    rw [text, ← List.cons_append, List.dropLast_concat, List.mem_cons, not_or]
    exact ⟨by decide, name.no_end⟩
  | array component ih =>
    rw [text, List.dropLast_cons_of_ne_nil component.text_ne_nil, List.mem_cons, not_or]
    exact ⟨by decide, ih⟩

theorem end_mem_of_close {t : FieldType} {before behind : List Char}
    (h : t.text = before ++ ')' :: behind) : ';' ∈ behind := by
  induction t generalizing before with
  | primitive p =>
    have hmem : ')' ∈ (primitive p).text := by
      rw [h]
      exact List.mem_append_right _ List.mem_cons_self
    cases p <;> exact absurd hmem (by decide)
  | ofClass name =>
    have hlast := congrArg List.getLast? h
    rw [text, ← List.cons_append, List.getLast?_concat, List.getLast?_append,
      List.getLast?_cons, Option.some_or, Option.some.injEq] at hlast
    cases hbehind : behind.getLast? with
    | none =>
      rw [hbehind] at hlast
      exact absurd hlast (by decide)
    | some c =>
      rw [hbehind, Option.getD_some] at hlast
      exact hlast ▸ List.mem_of_getLast? hbehind
  | array component ih =>
    cases before with
    | nil => exact absurd (List.cons.inj h).1 (by decide)
    | cons c cs => exact ih (List.cons.inj h).2

theorem dot_notMem_text (t : FieldType) : '.' ∉ t.text := by
  induction t with
  | primitive p => cases p <;> decide
  | ofClass name =>
    simp only [text, List.mem_cons, List.mem_append, List.not_mem_nil, or_false, not_or]
    exact ⟨by decide, name.no_dot, by decide⟩
  | array component ih =>
    rw [text, List.mem_cons, not_or]
    exact ⟨by decide, ih⟩

/-! ### Rows of arguments -/

variable {ts : List FieldType} {before behind : List Char}

/-- Where a row of arguments is cut: inside the first one or behind it. -/
theorem append_eq_cons {t : FieldType} (h : (t :: ts).flatMap text = before ++ behind) :
    (∃ rest, t.text = before ++ rest ∧ behind = rest ++ ts.flatMap text) ∨
      ∃ rest, before = t.text ++ rest ∧ ts.flatMap text = rest ++ behind := by
  rw [List.flatMap_cons, List.append_eq_append_iff] at h
  exact h.symm

/-- Whatever part of a row of arguments is read, the classes found are those of arguments. -/
theorem mem_types_of_prefix (h : before <+: ts.flatMap text) {type : List Char}
    (htype : type ∈ types before) : (∃ t ∈ ts, type = t.text) ∨ named? type = none := by
  induction ts generalizing before with
  | nil =>
    obtain rfl : before = [] := List.prefix_nil.1 h
    exact absurd htype List.not_mem_nil
  | cons t ts ih =>
    obtain ⟨behind, h⟩ := h
    rcases append_eq_cons h.symm with ⟨rest, htext, -⟩ | ⟨rest, rfl, hrest⟩
    · rcases List.eq_nil_or_concat' rest with rfl | ⟨front, c, rfl⟩
      · -- the whole of the first argument
        have hwhole : types before = [t.text] := by
          have hends := t.ends_text []
          rw [List.append_nil] at htext hends
          rw [← htext]
          exact hends
        rw [hwhole, List.mem_singleton] at htype
        exact .inl ⟨t, List.mem_cons_self, htype⟩
      · -- less than the first argument: no semicolon has been read
        refine .inr (Option.eq_none_iff_forall_ne_some.2 fun name hname => ?_)
        have hbefore : ';' ∈ before :=
          flatten_types before ▸ List.mem_flatten.2 ⟨type, htype, end_mem_of_named? hname⟩
        refine t.end_notMem_dropLast ?_
        rw [htext, ← List.append_assoc, List.dropLast_concat]
        exact List.mem_append_left _ hbefore
    · rw [t.ends_text rest, List.mem_cons] at htype
      rcases htype with rfl | htype
      · exact .inl ⟨t, List.mem_cons_self, rfl⟩
      · rcases ih ⟨behind, hrest.symm⟩ htype with ⟨u, hu, htext⟩ | hnone
        · exact .inl ⟨u, List.mem_cons_of_mem t hu, htext⟩
        · exact .inr hnone

theorem end_mem_of_close_flatMap (h : ts.flatMap text = before ++ ')' :: behind) :
    ';' ∈ behind := by
  induction ts generalizing before with
  | nil => exact absurd h.symm (List.append_ne_nil_of_right_ne_nil _ (List.cons_ne_nil _ _))
  | cons t ts ih =>
    rcases append_eq_cons h with ⟨rest, htext, hbehind⟩ | ⟨rest, -, hrest⟩
    · cases rest with
      | nil =>
        rw [List.nil_append] at hbehind
        exact ih (hbehind.symm.trans (List.nil_append _).symm)
      | cons c cs =>
        obtain ⟨rfl, rfl⟩ := List.cons.inj hbehind
        exact List.mem_append_left _ (end_mem_of_close htext)
    · exact ih hrest

theorem dot_notMem_flatMap (ts : List FieldType) : '.' ∉ ts.flatMap text := by
  intro h
  obtain ⟨t, -, ht⟩ := List.mem_flatMap.1 h
  exact t.dot_notMem_text ht

end FieldType

namespace MethodType

open Renames

def resultText (t : MethodType) : List Char := (t.result.map FieldType.text).getD ['V']

def text (t : MethodType) : String :=
  String.ofList ('(' :: (t.arguments.flatMap FieldType.text ++ ')' :: t.resultText))

def classNames (t : MethodType) : List String :=
  (t.arguments ++ t.result.toList).filterMap FieldType.className?

theorem named?_resultText (t : MethodType) :
    named? t.resultText = t.result.bind FieldType.className? := by
  rw [resultText]
  cases t.result with
  | none => rfl
  | some type => exact type.named?_text

/-- What is read as argument list and result: the arguments or less, and the result or, behind a
closing parenthesis in a class name, more. -/
theorem signature?_text {t : MethodType} {arguments result : List Char}
    (h : signature? t.text.toList = some (arguments, result)) :
    arguments <+: t.arguments.flatMap FieldType.text ∧
      (result = t.resultText ∨ ∃ front, ';' ∈ front ∧ result = front ++ ')' :: t.resultText) := by
  obtain ⟨htext, hopen⟩ := signature?_eq_some_iff.1 h
  rw [text, String.toList_ofList, List.cons.injEq, List.append_eq_append_iff] at htext
  rcases htext.2 with ⟨rest, harguments, hrest⟩ | ⟨rest, harguments, hrest⟩
  · -- what is read as arguments has no closing parenthesis
    cases rest with
    | nil =>
      rw [List.append_nil] at harguments
      exact ⟨harguments ▸ List.prefix_rfl, .inl (List.cons.inj hrest).2.symm⟩
    | cons c cs =>
      obtain ⟨rfl, -⟩ := List.cons.inj hrest
      exact absurd (harguments ▸ List.mem_append_right _ List.mem_cons_self) hopen
  · refine ⟨⟨rest, harguments.symm⟩, ?_⟩
    cases rest with
    | nil => exact .inl (List.cons.inj hrest).2
    | cons c cs =>
      obtain ⟨rfl, hresult⟩ := List.cons.inj hrest
      exact .inr ⟨cs, FieldType.end_mem_of_close_flatMap harguments, hresult⟩

/-- **The names read in a descriptor** are those of its classes, except such as have a semicolon. -/
theorem named_text {t : MethodType} {name : String} (h : name ∈ namesRead t.text) :
    name ∈ t.classNames ∨ ';' ∈ name.toList := by
  unfold namesRead at h
  split at h
  · next arguments result hsignature =>
    obtain ⟨hpart, hresult⟩ := signature?_text hsignature
    obtain ⟨type, htype, hname⟩ := List.mem_filterMap.1 h
    rcases List.mem_append.1 htype with htype | htype
    · rcases FieldType.mem_types_of_prefix hpart htype with ⟨u, hu, rfl⟩ | hnone
      · rw [u.named?_text] at hname
        exact .inl (List.mem_filterMap.2 ⟨u, List.mem_append_left _ hu, hname⟩)
      · exact absurd (hnone.symm.trans hname) (by simp)
    · obtain rfl := List.mem_singleton.1 htype
      rcases hresult with rfl | ⟨front, hend, hfront⟩
      · rw [named?_resultText, Option.bind_eq_some_iff] at hname
        obtain ⟨u, hu, hname⟩ := hname
        exact .inl (List.mem_filterMap.2
          ⟨u, List.mem_append_right _ (Option.mem_toList.2 hu), hname⟩)
      · -- the semicolon of `front` is not the last sign of the type, so it is in the name
        refine .inr (end_mem_name hname ?_)
        rw [hfront, List.dropLast_append_of_ne_nil (List.cons_ne_nil _ _)]
        exact List.mem_append_left _ hend
  · exact absurd h List.not_mem_nil

theorem dot_notMem_text (t : MethodType) : '.' ∉ t.text.toList := by
  have hresult : '.' ∉ t.resultText := by
    rw [resultText]
    cases t.result with
    | none => decide
    | some type => exact type.dot_notMem_text
  rw [text, String.toList_ofList, List.mem_cons, List.mem_append, List.mem_cons]
  rintro (hc | harguments | hc | hmem)
  · exact absurd hc (by decide)
  · exact FieldType.dot_notMem_flatMap _ harguments
  · exact absurd hc (by decide)
  · exact hresult hmem

end MethodType

end SourceRename
