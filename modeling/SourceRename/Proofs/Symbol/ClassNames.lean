import SourceRename.Proofs.Table
import SourceRename.Symbol.ClassTable

/-!
# Names that find a class

A `ClassTable` is made by adding classes one by one, and nothing is ever taken out of it.  It has
the class added last under each binary name, and under each qualified name the binary name of the
class added last under that (`get?_byBinary_ofList`, `get?_byQualified_ofList`).  So a name finds,
with dots for its slashes,

    the last class that has it as its binary name, or else
    the last class with the binary name of the last class that has it as its qualified name

(`find?_ofList`).  A class is so found under its binary name, and what is found has the name that
was asked for.  Each of the two fails in one case (`found_by_own_names`).  A binary name with
slashes is kept with them and asked for without, so it finds what its form with dots finds.  And
where a class is replaced by one of the same binary name, its qualified name stays and finds the new
class, although that may be called otherwise (`LeftOver`). -/

namespace SourceRename.ClassTable

variable {part : ClassName → String} {cs : List ClassDecl} {c : ClassDecl} {name : String}

def dotted (name : String) : String := Naming.replaceChar '/' '.' name

/-- The class added last under a name of one sort. -/
def last? (part : ClassName → String) (cs : List ClassDecl) (name : String) : Option ClassDecl :=
  (cs.filter (part ·.name = name)).getLast?

/-! ### The last class under a name -/

theorem mem_of_last? (h : last? part cs name = some c) : c ∈ cs ∧ part c.name = name := by
  simpa using List.mem_of_getLast? h

theorem last?_eq_none_iff : last? part cs name = none ↔ ∀ c ∈ cs, part c.name ≠ name := by
  simp [last?]

theorem exists_last? (part : ClassName → String) (hc : c ∈ cs) :
    ∃ d, last? part cs (part c.name) = some d := by
  refine Option.ne_none_iff_exists'.1 fun h => ?_
  exact last?_eq_none_iff.1 h c hc rfl

/-! ### Adding -/

theorem ofList_append_singleton (cs : List ClassDecl) (c : ClassDecl) :
    ofList (cs ++ [c]) = (ofList cs).add c := by
  rw [ofList, List.foldl_append]
  rfl

/-- Adding one by one fills two tables, each with one entry for every class. -/
theorem ofList_eq (cs : List ClassDecl) : ofList cs =
    ⟨.ofList (cs.map fun c => (c.name.binary, c)),
      .ofList (cs.map fun c => (c.name.qualified, c.name.binary))⟩ := by
  induction cs using List.reverseRecOn with
  | nil => rfl
  | append_singleton cs c ih =>
    simp only [ofList_append_singleton, ih, add, List.map_append, List.map_singleton,
      Table.ofList_append_singleton]

theorem get?_byBinary_ofList (cs : List ClassDecl) (binary : String) :
    (ofList cs).byBinary.get? binary = last? ClassName.binary cs binary := by
  rw [ofList_eq, Table.get?_ofList, List.filter_map, List.map_map]
  exact congrArg List.getLast? (List.map_id _)

theorem get?_byQualified_ofList (cs : List ClassDecl) (qualified : String) :
    (ofList cs).byQualified.get? qualified =
      (last? ClassName.qualified cs qualified).map (·.name.binary) := by
  rw [ofList_eq, Table.get?_ofList, List.filter_map, List.map_map, List.getLast?_map]
  rfl

/-! ### Finding -/

/-- A name finds the class of that binary name, or else the class that has come to stand under the
binary name of the class of that qualified name. -/
theorem find?_ofList (cs : List ClassDecl) (name : String) : (ofList cs).find? name =
    (last? ClassName.binary cs (dotted name)).or
      ((last? ClassName.qualified cs (dotted name)).bind fun d =>
        last? ClassName.binary cs d.name.binary) := by
  show ((ofList cs).byBinary.get? (dotted name)).or
    (((ofList cs).byQualified.get? (dotted name)).bind (ofList cs).byBinary.get?) = _
  rw [get?_byBinary_ofList, get?_byQualified_ofList, Option.bind_map]
  refine congrArg _ (Option.bind_congr fun d _ => ?_)
  exact get?_byBinary_ofList cs d.name.binary

theorem find?_of_binary (h : last? ClassName.binary cs (dotted name) = some c) :
    (ofList cs).find? name = some c := by
  rw [find?_ofList, h, Option.some_or]

theorem find?_of_not_binary (h : last? ClassName.binary cs (dotted name) = none) :
    (ofList cs).find? name = (last? ClassName.qualified cs (dotted name)).bind fun d =>
      last? ClassName.binary cs d.name.binary := by
  rw [find?_ofList, h, Option.none_or]

/-- The binary name has a form with dots that is no binary name itself, and as a qualified name this
form stands for the class. -/
def FoundDotted (cs : List ClassDecl) (binary : String) : Prop :=
  last? ClassName.binary cs (dotted binary) = none ∧
    ∃ d ∈ last? ClassName.qualified cs (dotted binary), d.name.binary = binary

/-- A binary name finds the class added last under it if and only if it has no slash or its form
with dots does. -/
theorem find?_binary_iff (hc : c ∈ cs) :
    (ofList cs).find? c.name.binary = last? ClassName.binary cs c.name.binary ↔
      '/' ∉ c.name.binary.toList ∨ FoundDotted cs c.name.binary := by
  obtain ⟨e, he⟩ := exists_last? ClassName.binary hc
  have hname : e.name.binary = c.name.binary := (mem_of_last? he).2
  have hsame : dotted c.name.binary = c.name.binary ↔ '/' ∉ c.name.binary.toList :=
    Naming.replaceChar_eq_self_iff (by decide)
  rw [he]
  cases hm : last? ClassName.binary cs (dotted c.name.binary) with
  | some f =>
    have hf : f.name.binary = dotted c.name.binary := (mem_of_last? hm).2
    have hother : ¬ FoundDotted cs c.name.binary := fun h => by
      rw [FoundDotted, hm] at h
      exact absurd h.1 (by simp)
    rw [find?_of_binary hm, Option.some.injEq, ← hsame, or_iff_left hother]
    constructor
    · rintro rfl
      rw [← hf, hname]
    · intro hdots
      rw [hdots, he] at hm
      exact (Option.some.inj hm).symm
  | none =>
    have hslash : ¬ '/' ∉ c.name.binary.toList := by
      rw [← hsame]
      intro hdots
      rw [hdots, he] at hm
      exact absurd hm (by simp)
    rw [find?_of_not_binary hm, Option.bind_eq_some_iff, or_iff_right hslash, FoundDotted]
    constructor
    · rintro ⟨d, hd, hfound⟩
      exact ⟨hm, d, hd, (mem_of_last? hfound).2.symm.trans hname⟩
    · rintro ⟨-, d, hd, hbinary⟩
      exact ⟨d, hd, hbinary ▸ he⟩

/-- The name stands for a class that was replaced by one with another qualified name: as a binary
name it finds nothing. -/
def LeftOver (cs : List ClassDecl) (name : String) : Prop :=
  last? ClassName.binary cs name = none ∧
    ∃ d ∈ last? ClassName.qualified cs name,
      ∃ c ∈ last? ClassName.binary cs d.name.binary, c.name.qualified ≠ name

/-- What a name finds is called so, unless the name is left over. -/
theorem own_name_iff (h : (ofList cs).find? name = some c) :
    c.name.binary = dotted name ∨ c.name.qualified = dotted name ↔ ¬ LeftOver cs (dotted name) := by
  cases hm : last? ClassName.binary cs (dotted name) with
  | some e =>
    rw [find?_of_binary hm] at h
    obtain rfl := Option.some.inj h
    refine iff_of_true (.inl (mem_of_last? hm).2) fun hleft => ?_
    exact absurd (hm.symm.trans hleft.1) (by simp)
  | none =>
    rw [find?_of_not_binary hm, Option.bind_eq_some_iff] at h
    obtain ⟨d, hd, hc⟩ := h
    have hbinary : c.name.binary ≠ dotted name := last?_eq_none_iff.1 hm c (mem_of_last? hc).1
    rw [or_iff_right hbinary, LeftOver]
    simp [hm, hd, hc]

/-- **Classes are found under their own names.**  Let classes be added one by one.

A binary name finds the class added last under it, in its own form and with slashes for its dots, if
and only if it has no slash or its form with dots is no binary name and stands, as a qualified name,
for this class.

And what a name finds has this name, with dots for slashes, as its binary or its qualified name, if
and only if the name is not left over from a class that was replaced. -/
theorem found_by_own_names (cs : List ClassDecl) :
    (∀ c ∈ cs,
      ((ofList cs).find? c.name.binary = last? ClassName.binary cs c.name.binary ∧
        (ofList cs).find? c.name.internal = last? ClassName.binary cs c.name.binary ↔
      '/' ∉ c.name.binary.toList ∨ FoundDotted cs c.name.binary)) ∧
    ∀ (name : String) (c : ClassDecl), (ofList cs).find? name = some c →
      (c.name.binary = dotted name ∨ c.name.qualified = dotted name ↔
        ¬ LeftOver cs (dotted name)) := by
  refine ⟨fun c hc => ?_, fun name c => own_name_iff⟩
  have hinternal : (ofList cs).find? c.name.internal = (ofList cs).find? c.name.binary := by
    have hdots : dotted c.name.internal = dotted c.name.binary :=
      Naming.replaceChar_replaceChar '.' '/' c.name.binary
    rw [find?_ofList, hdots, ← find?_ofList]
  rw [hinternal, and_self, find?_binary_iff hc]

/-! ### Classes that replace each other -/

def bare (name : ClassName) : ClassDecl := ⟨name, none, [], [], []⟩

/-- A nested class, and what replaces it: a class that extends another one. -/
def nestedClasses : List ClassDecl :=
  [bare (.ofBinary "a.pkg.A$Inner"), bare (.ofBinary "a.pkg.A"),
    { bare (.ofBinary "a.pkg.A$Inner") with superclass := some "a.pkg.A" }]

theorem nested_found :
    (ofList nestedClasses).find? "a.pkg.A$Inner" = nestedClasses[2]? ∧
    (ofList nestedClasses).find? "a/pkg/A$Inner" = nestedClasses[2]? ∧
    (ofList nestedClasses).find? "a/pkg/A/Inner" = nestedClasses[2]? ∧
    ¬ LeftOver nestedClasses "a.pkg.A.Inner" := by
  obtain ⟨hbinary, hown⟩ := found_by_own_names nestedClasses
  have hlast : last? ClassName.binary nestedClasses "a.pkg.A$Inner" = nestedClasses[2]? := by decide
  obtain ⟨hdots, hslashes⟩ := (hbinary (bare (.ofBinary "a.pkg.A$Inner")) (by decide)).2
    (.inl (by decide))
  have hqualified : (ofList nestedClasses).find? "a/pkg/A/Inner" = nestedClasses[2]? := by decide
  refine ⟨hdots.trans hlast, ?_, hqualified, ?_⟩
  · have hinternal : (bare (.ofBinary "a.pkg.A$Inner")).name.internal = "a/pkg/A$Inner" := by decide
    rw [← hinternal]
    exact hslashes.trans hlast
  · exact (hown "a/pkg/A/Inner" _ hqualified).1 (.inr (by decide))

/-- A class whose name has a dollar sign, first taken for a nested class and then replaced. -/
def dollarClasses : List ClassDecl :=
  [bare (.ofBinary "a.pkg.A$B"), bare ⟨"a.pkg.A$B", "a.pkg.A$B"⟩]

/-- **A name that no class has any more finds a class**, and a name with slashes does not find the
class that was added under it. -/
theorem left_over_name_found :
    LeftOver dollarClasses "a.pkg.A.B" ∧
    (ofList dollarClasses).find? "a.pkg.A.B" = some (bare ⟨"a.pkg.A$B", "a.pkg.A$B"⟩) ∧
    (ofList [bare (.ofBinary "b/C")]).find? "b/C" = none ∧
    (¬ ∀ (cs : List ClassDecl) (name : String) (c : ClassDecl), (ofList cs).find? name = some c →
      c.name.binary = dotted name ∨ c.name.qualified = dotted name) ∧
    ¬ ∀ (cs : List ClassDecl), ∀ c ∈ cs,
      (ofList cs).find? c.name.binary = last? ClassName.binary cs c.name.binary := by
  have hfound : (ofList dollarClasses).find? "a.pkg.A.B" =
      some (bare ⟨"a.pkg.A$B", "a.pkg.A$B"⟩) := by decide
  have hother : ¬ ("a.pkg.A$B" = dotted "a.pkg.A.B" ∨ "a.pkg.A$B" = dotted "a.pkg.A.B") := by decide
  have hdots : dotted "a.pkg.A.B" = "a.pkg.A.B" := by decide
  have hleft : LeftOver dollarClasses (dotted "a.pkg.A.B") :=
    Classical.not_not.1 fun h => hother ((own_name_iff hfound).2 h)
  have hlost : (ofList [bare (.ofBinary "b/C")]).find? "b/C" = none := by decide
  refine ⟨hdots ▸ hleft, hfound, hlost, fun h => hother (h _ _ _ hfound), fun h => ?_⟩
  have hlast := h [bare (.ofBinary "b/C")] _ List.mem_cons_self
  have hsome : last? ClassName.binary [bare (.ofBinary "b/C")] "b/C" =
      some (bare (.ofBinary "b/C")) := by decide
  exact absurd (hlost.symm.trans (hlast.trans hsome)) (by simp)

end SourceRename.ClassTable
