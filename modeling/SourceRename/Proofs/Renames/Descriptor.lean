import Mathlib.Data.List.Basic
import Mathlib.Data.List.Induction
import Mathlib.Data.List.TakeWhile
import SourceRename.Renames.Descriptor

/-!
# Renaming descriptors, and back

A method descriptor is renamed type by type (`renameType_of_class`), and what comes out is cut into
the same types again: each of them ends by itself, and only the last one may lack its end (`Row`).
So if a second table of renames turns the new class names back into the old ones, it turns the new
descriptor back into the old one (`renameDescriptor_restores`).  That holds of every text,
descriptor or not. -/

namespace SourceRename.Renames

variable {r s : Renames}

/-! ### One type -/

/-- The new name of a class, or its name if it has no new one. -/
def className (r : Renames) (name : String) : String :=
  ((r.find? name).map (·.new)).getD name

def classType (dims : List Char) (name : String) : List Char :=
  dims ++ 'L' :: (name.toList ++ [';'])

def dims (type : List Char) : List Char := type.takeWhile (· == '[')

def named? (type : List Char) : Option String := elementClass? (element type)

theorem elementClass?_eq_some_iff {cs : List Char} {name : String} :
    elementClass? cs = some name ↔ cs = 'L' :: (name.toList ++ [';']) := by
  constructor
  · intro h
    unfold elementClass? at h
    split at h
    · next rest =>
      split at h
      · next hlast =>
        obtain rfl := Option.some.inj h
        rw [String.toList_ofList, List.dropLast_append_getLast? _ hlast]
      · exact absurd h (by simp)
    · exact absurd h (by simp)
  · rintro rfl
    simp [elementClass?]

theorem eq_classType {type : List Char} {name : String} (h : named? type = some name) :
    type = classType (dims type) name := by
  have helement : element type = 'L' :: (name.toList ++ [';']) := elementClass?_eq_some_iff.1 h
  rw [classType, ← helement]
  exact List.takeWhile_append_dropWhile.symm

theorem infix_of_named? {type : List Char} {name : String} (h : named? type = some name) :
    name.toList <:+: type := by
  refine ⟨dims type ++ ['L'], [';'], ?_⟩
  rw [List.append_assoc, List.append_assoc]
  exact (eq_classType h).symm

theorem end_mem_of_named? {type : List Char} {name : String} (h : named? type = some name) :
    ';' ∈ type := by
  rw [eq_classType h, classType]
  simp

theorem eq_bracket_of_mem_dims {type : List Char} {c : Char} (h : c ∈ dims type) : c = '[' := by
  simpa using List.mem_takeWhile_imp h

/-- A semicolon that does not come last is in the name of the class. -/
theorem end_mem_name {type : List Char} {name : String} (h : named? type = some name)
    (hinside : ';' ∈ type.dropLast) : ';' ∈ name.toList := by
  rw [eq_classType h, classType, ← List.cons_append, ← List.append_assoc, List.dropLast_concat,
    List.mem_append, List.mem_cons] at hinside
  rcases hinside with hdims | hL | hname
  · exact absurd (eq_bracket_of_mem_dims hdims) (by decide)
  · exact absurd hL (by decide)
  · exact hname

variable {brackets : List Char}

theorem element_classType (h : ∀ c ∈ brackets, c = '[') (name : String) :
    element (classType brackets name) = 'L' :: (name.toList ++ [';']) := by
  rw [classType, element, List.dropWhile_append_of_pos fun c hc => by simp [h c hc]]
  simp

theorem dims_classType (h : ∀ c ∈ brackets, c = '[') (name : String) :
    dims (classType brackets name) = brackets := by
  rw [classType, dims, List.takeWhile_append_of_pos fun c hc => by simp [h c hc]]
  simp

theorem named?_classType (h : ∀ c ∈ brackets, c = '[') (name : String) :
    named? (classType brackets name) = some name := by
  rw [named?, element_classType h, elementClass?_eq_some_iff]

/-- **A type of a class** gets the new name of the class. -/
theorem renameType_of_class {type : List Char} {name : String} (h : named? type = some name) :
    r.renameType type = classType (dims type) (r.className name) := by
  have helement : element type = 'L' :: (name.toList ++ [';']) := elementClass?_eq_some_iff.1 h
  have htype : r.ofType? type = r.find? name := by
    rw [ofType?, show elementClass? (element type) = some name from h, Option.bind_some]
  rw [renameType, htype, classType, className, helement]
  cases r.find? name with
  | none => rfl
  | some c => rfl

theorem renameType_of_other {type : List Char} (h : named? type = none) :
    r.renameType type = type := by
  have htype : r.ofType? type = none := by
    rw [ofType?, show elementClass? (element type) = none from h, Option.bind_none]
  rw [renameType, htype]
  exact List.takeWhile_append_dropWhile

/-- A type either stays as it is or becomes that of the class with a new name. -/
theorem renameType_cases (r : Renames) (type : List Char) : r.renameType type = type ∨
    ∃ name c, r.find? name = some c ∧ r.renameType type = classType (dims type) c.new := by
  cases hname : named? type with
  | none => exact .inl (renameType_of_other hname)
  | some name =>
    have htype := renameType_of_class (r := r) hname
    rw [className] at htype
    cases hclass : r.find? name with
    | none =>
      rw [hclass, Option.map_none, Option.getD_none, ← eq_classType hname] at htype
      exact .inl htype
    | some c =>
      rw [hclass, Option.map_some, Option.getD_some] at htype
      exact .inr ⟨name, c, hclass, htype⟩

theorem renameType_restores {type : List Char}
    (h : ∀ name, named? type = some name → s.className (r.className name) = name) :
    s.renameType (r.renameType type) = type := by
  cases hname : named? type with
  | none => rw [renameType_of_other hname, renameType_of_other hname]
  | some name =>
    have hdims : ∀ c ∈ dims type, c = '[' := fun c hc => eq_bracket_of_mem_dims hc
    rw [renameType_of_class hname, renameType_of_class (named?_classType hdims _),
      dims_classType hdims, h name hname, ← eq_classType hname]

/-! ### Rows of types -/

/-- The character is the last one of a type of which the reader has seen the beginning. -/
def closes : Bool → Char → Bool
  | true, c => c == ';'
  | false, c => c != '[' && c != 'L'

variable {current : List Char} {named : Bool} {c : Char}

theorem typesFrom_of_closes (h : closes named c = true) (cs : List Char) :
    typesFrom current named (c :: cs) = (c :: current).reverse :: types cs := by
  cases named with
  | true => rw [typesFrom, if_pos rfl, if_pos (by simpa [closes] using h), types]
  | false =>
    obtain ⟨hbracket, hclass⟩ : c ≠ '[' ∧ c ≠ 'L' := by simpa [closes] using h
    rw [typesFrom, if_neg Bool.false_ne_true, if_neg hbracket, if_neg hclass, types]

theorem typesFrom_of_goes (h : closes named c = false) (cs : List Char) :
    typesFrom current named (c :: cs) = typesFrom (c :: current) (named || c == 'L') cs := by
  cases named with
  | true => rw [typesFrom, if_pos rfl, if_neg (by simpa [closes] using h), Bool.true_or]
  | false =>
    by_cases hbracket : c = '['
    · rw [typesFrom, if_neg Bool.false_ne_true, if_pos hbracket, hbracket]
      rfl
    · have hclass : c = 'L' := by simpa [closes, hbracket] using h
      rw [typesFrom, if_neg Bool.false_ne_true, if_neg hbracket, if_pos hclass, hclass]
      rfl

theorem flatten_typesFrom (current : List Char) (named : Bool) (cs : List Char) :
    (typesFrom current named cs).flatten = current.reverse ++ cs := by
  fun_induction typesFrom current named cs <;> simp_all

theorem flatten_types (cs : List Char) : (types cs).flatten = cs := flatten_typesFrom [] false cs

/-- A type that ends by itself: it is cut off whatever follows. -/
def Ends (type : List Char) : Prop := ∀ rest, types (type ++ rest) = type :: types rest

/-- A row of types as it is cut: each ends by itself, and only the last one may lack its end. -/
inductive Row : List (List Char) → Prop
  | nil : Row []
  | last (type) : types type = [type] → Row [type]
  | cons (type) (rest) : Ends type → Row rest → Row (type :: rest)

/-- Having read `current` from the start, the reader is in the middle of a type, and in a class name
if `named`. -/
def Reads (current : List Char) (named : Bool) : Prop :=
  ∀ rest, types (current.reverse ++ rest) = typesFrom current named rest

namespace Reads

theorem closes (h : Reads current named) (hc : closes named c = true) :
    Ends (c :: current).reverse := by
  intro rest
  rw [List.reverse_cons, List.append_assoc, List.singleton_append, h, typesFrom_of_closes hc,
    List.reverse_cons]

theorem goes (h : Reads current named) (hc : Renames.closes named c = false) :
    Reads (c :: current) (named || c == 'L') := by
  intro rest
  rw [List.reverse_cons, List.append_assoc, List.singleton_append, h, typesFrom_of_goes hc]

/-- In the middle of a type, a row of characters none of which ends it. -/
theorem append (h : Reads current true) {name : List Char} (hname : ';' ∉ name) :
    Reads (name.reverse ++ current) true := by
  induction name generalizing current with
  | nil => exact h
  | cons c cs ih =>
    rw [List.mem_cons, not_or] at hname
    rw [List.reverse_cons, List.append_assoc]
    exact ih (h.goes (c := c) (by simpa [Renames.closes] using Ne.symm hname.1)) hname.2

theorem of_brackets {brackets : List Char} (h : ∀ c ∈ brackets, c = '[') :
    Reads brackets.reverse false := by
  induction brackets using List.reverseRecOn with
  | nil => exact fun rest => rfl
  | append_singleton cs c ih =>
    have hc : c = '[' := h c (by simp)
    have hcs := ih fun c hc => h c (List.mem_append_left _ hc)
    have hread := hcs.goes (c := c) (by rw [hc]; rfl)
    rw [hc] at hread ⊢
    rw [List.reverse_append]
    exact hread

end Reads

theorem row_typesFrom {cs : List Char} (h : Reads current named) :
    Row (typesFrom current named cs) := by
  induction cs generalizing current named with
  | nil =>
    rw [typesFrom]
    split
    · exact .nil
    · next hsome =>
      have hread := h []
      rw [List.append_nil, typesFrom, if_neg hsome] at hread
      exact .last _ hread
  | cons c cs ih =>
    cases hc : closes named c with
    | true =>
      rw [typesFrom_of_closes hc]
      exact .cons _ _ (h.closes hc) (ih fun rest => rfl)
    | false =>
      rw [typesFrom_of_goes hc]
      exact ih (h.goes hc)

theorem row_types (cs : List Char) : Row (types cs) := row_typesFrom fun _ => rfl

/-- A row of types is cut where it was joined. -/
theorem Row.types_flatten {row : List (List Char)} (h : Row row) : types row.flatten = row := by
  induction h with
  | nil => rfl
  | last type htype => rwa [List.flatten_singleton]
  | cons type rest htype hrest ih => rw [List.flatten_cons, htype, ih]

theorem ends_classType {name : String} (hbrackets : ∀ c ∈ brackets, c = '[')
    (hname : ';' ∉ name.toList) : Ends (classType brackets name) := by
  have hclass : Reads ('L' :: brackets.reverse) true := (Reads.of_brackets hbrackets).goes rfl
  have hread := (hclass.append hname).closes (c := ';') rfl
  simpa [classType] using hread

theorem Row.map_renameType {row : List (List Char)}
    (hnew : ∀ name c, r.find? name = some c → ';' ∉ c.new.toList) (h : Row row) :
    Row (row.map r.renameType) := by
  have hends (type : List Char) : r.renameType type = type ∨ Ends (r.renameType type) := by
    rcases r.renameType_cases type with hsame | ⟨name, c, hclass, htype⟩
    · exact .inl hsame
    · rw [htype]
      exact .inr (ends_classType (fun _ => eq_bracket_of_mem_dims) (hnew name c hclass))
  induction h with
  | nil => exact .nil
  | last type htype =>
    refine .last _ ?_
    rcases hends type with hsame | hends
    · rw [hsame, htype]
    · have hend := hends []
      rwa [List.append_nil] at hend
  | cons type rest htype _ ih =>
    refine .cons _ _ ?_ ih
    rcases hends type with hsame | hends
    · rwa [hsame]
    · exact hends

theorem types_flatMap_renameType (hnew : ∀ name c, r.find? name = some c → ';' ∉ c.new.toList)
    (cs : List Char) : types ((types cs).flatMap r.renameType) = (types cs).map r.renameType := by
  rw [List.flatMap_def]
  exact ((row_types cs).map_renameType hnew).types_flatten

/-! ### Descriptors -/

theorem eq_append_first {sign : Char} {cs : List Char} (h : sign ∈ cs) :
    cs = cs.takeWhile (· != sign) ++ sign :: (cs.dropWhile (· != sign)).drop 1 := by
  induction cs with
  | nil => exact absurd h List.not_mem_nil
  | cons c cs ih =>
    by_cases hc : c = sign
    · simp [hc]
    · have hrest : sign ∈ cs := (List.mem_cons.1 h).resolve_left (Ne.symm hc)
      have hp : (c != sign) = true := by simpa using hc
      rw [List.takeWhile_cons, if_pos hp, List.dropWhile_cons, if_pos hp, List.cons_append,
        ← ih hrest]

theorem notMem_takeWhile {sign : Char} {cs : List Char} : sign ∉ cs.takeWhile (· != sign) := by
  intro h
  simpa using List.mem_takeWhile_imp h

theorem signature?_eq_some_iff {cs arguments result : List Char} :
    signature? cs = some (arguments, result) ↔
      cs = '(' :: (arguments ++ ')' :: result) ∧ ')' ∉ arguments := by
  constructor
  · intro h
    unfold signature? at h
    split at h
    · next rest =>
      split at h
      · next hclose =>
        obtain ⟨rfl, rfl⟩ := Prod.mk.inj (Option.some.inj h)
        exact ⟨congrArg _ (eq_append_first hclose), notMem_takeWhile⟩
      · exact absurd h (by simp)
    · exact absurd h (by simp)
  · rintro ⟨rfl, hopen⟩
    have hp : ∀ c ∈ arguments, (c != ')') = true := fun c hc => by
      simpa using ne_of_mem_of_not_mem hc hopen
    simp [signature?, List.takeWhile_append_of_pos hp, List.dropWhile_append_of_pos hp]

def namesRead (descriptor : String) : List String :=
  match signature? descriptor.toList with
  | some (arguments, result) => (types arguments ++ [result]).filterMap named?
  | none => []

theorem mem_renameType {type : List Char} {c : Char} (h : c ∈ r.renameType type) :
    c ∈ type ∨ c = 'L' ∨ c = ';' ∨ ∃ name d, r.find? name = some d ∧ c ∈ d.new.toList := by
  rcases r.renameType_cases type with hsame | ⟨name, d, hclass, htype⟩
  · exact .inl (hsame ▸ h)
  · rw [htype, classType] at h
    simp only [List.mem_append, List.mem_cons, List.not_mem_nil, or_false] at h
    rcases h with hdims | hL | hname | hend
    · exact .inl ((List.takeWhile_prefix _).subset hdims)
    · exact .inr (.inl hL)
    · exact .inr (.inr (.inr ⟨name, d, hclass, hname⟩))
    · exact .inr (.inr (.inl hend))

theorem flatMap_restores {arguments : List Char}
    (hnew : ∀ name c, r.find? name = some c → ';' ∉ c.new.toList)
    (h : ∀ type ∈ types arguments, s.renameType (r.renameType type) = type) :
    (types ((types arguments).flatMap r.renameType)).flatMap s.renameType = arguments := by
  calc (types ((types arguments).flatMap r.renameType)).flatMap s.renameType
      = ((types arguments).map r.renameType).flatMap s.renameType := by
        rw [types_flatMap_renameType hnew]
    _ = (types arguments).flatMap fun type => s.renameType (r.renameType type) :=
        List.flatMap_map ..
    _ = (types arguments).flatMap id := List.flatMap_congr h
    _ = arguments := by rw [List.flatMap_id, flatten_types]

theorem close_notMem_flatMap {arguments : List Char}
    (hnew : ∀ name c, r.find? name = some c → ')' ∉ c.new.toList) (hopen : ')' ∉ arguments) :
    ')' ∉ (types arguments).flatMap r.renameType := by
  intro hmem
  obtain ⟨type, htype, hc⟩ := List.mem_flatMap.1 hmem
  rcases mem_renameType hc with hc | hc | hc | ⟨name, d, hd, hc⟩
  · exact hopen (flatten_types arguments ▸ List.mem_flatten.2 ⟨type, htype, hc⟩)
  · exact absurd hc (by decide)
  · exact absurd hc (by decide)
  · exact hnew name d hd hc

/-- **A descriptor is turned back** if the names of its classes are. -/
theorem renameDescriptor_restores {descriptor : String}
    (hnew : ∀ name c, r.find? name = some c → ';' ∉ c.new.toList ∧ ')' ∉ c.new.toList)
    (h : ∀ name ∈ namesRead descriptor, s.className (r.className name) = name) :
    s.renameDescriptor (r.renameDescriptor descriptor) = descriptor := by
  cases hsignature : signature? descriptor.toList with
  | none =>
    have hsame (q : Renames) : q.renameDescriptor descriptor = descriptor := by
      rw [renameDescriptor, hsignature]
    rw [hsame, hsame]
  | some parts =>
    obtain ⟨arguments, result⟩ := parts
    obtain ⟨htext, hopen⟩ := signature?_eq_some_iff.1 hsignature
    have hback : ∀ type ∈ types arguments ++ [result],
        s.renameType (r.renameType type) = type := by
      intro type htype
      refine renameType_restores fun name hname => h name ?_
      rw [namesRead, hsignature]
      exact List.mem_filterMap.2 ⟨type, htype, hname⟩
    have harguments := flatMap_restores (fun name c hc => (hnew name c hc).1)
      fun type htype => hback type (List.mem_append_left _ htype)
    have hresult := hback result (by simp)
    have hrenamed : signature? (r.renameDescriptor descriptor).toList =
        some ((types arguments).flatMap r.renameType, r.renameType result) := by
      rw [renameDescriptor, hsignature, signature?_eq_some_iff, String.toList_ofList]
      exact ⟨rfl, close_notMem_flatMap (fun name c hc => (hnew name c hc).2) hopen⟩
    rw [renameDescriptor, hrenamed]
    simp only [harguments, hresult]
    rw [List.cons_append, ← htext, String.ofList_toList]

/-- A name read in a descriptor is a part of it. -/
theorem infix_of_namesRead {descriptor name : String} (h : name ∈ namesRead descriptor) :
    name.toList <:+: descriptor.toList := by
  unfold namesRead at h
  split at h
  · next arguments result hsignature =>
    obtain ⟨type, htype, hname⟩ := List.mem_filterMap.1 h
    refine (infix_of_named? hname).trans ?_
    rw [(signature?_eq_some_iff.1 hsignature).1]
    rcases List.mem_append.1 htype with harguments | hresult
    · have hrow : type <:+: arguments :=
        flatten_types arguments ▸ List.infix_of_mem_flatten harguments
      exact hrow.trans ⟨['('], ')' :: result, by simp⟩
    · obtain rfl := List.mem_singleton.1 hresult
      exact ⟨'(' :: (arguments ++ [')']), [], by simp⟩
  · exact absurd h List.not_mem_nil

end SourceRename.Renames
