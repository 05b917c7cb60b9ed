import SourceRename.Proofs.Symbol.Nearest
import SourceRename.Rename.File

/-!
# New names of inherited methods

A method whose owner is no mixin class takes its new name from the nearest class among its owner and
the supertypes of its owner for which the renames have an entry; of the classes at one distance the
one that is found first counts, and of its entries the one with the descriptor of the method
(`Context.methodName?_nearest`).
-/

namespace SourceRename.Context

variable {cx : Context} {m : Method} {c new : String}

def given? (cx : Context) (m : Method) (c : String) : Option String :=
  (cx.renames.find? c).bind (·.method? m.name m.descriptor)

/-- The renames of the class have an entry for the method: with its descriptor, or for its name
alone. -/
def Defines (cx : Context) (m : Method) (c : String) : Prop :=
  ∃ r, cx.renames.find? c = some r ∧
    ((r.methods.get? ⟨m.name, some m.descriptor⟩).isSome = true ∨
      (r.methods.get? ⟨m.name, none⟩).isSome = true)

/-- The renames of the class give the method this name: by the entry with its descriptor or, where
there is none, by the one for its name alone. -/
def Gives (cx : Context) (m : Method) (c new : String) : Prop :=
  ∃ r, cx.renames.find? c = some r ∧
    (r.methods.get? ⟨m.name, some m.descriptor⟩ = some new ∨
      r.methods.get? ⟨m.name, some m.descriptor⟩ = none ∧
        r.methods.get? ⟨m.name, none⟩ = some new)

theorem given?_eq_some_iff : cx.given? m c = some new ↔ cx.Gives m c new := by
  rw [given?, Option.bind_eq_some_iff]
  exact exists_congr fun r => and_congr_right fun _ => Option.or_eq_some_iff

theorem given?_isSome_iff : (cx.given? m c).isSome = true ↔ cx.Defines m c := by
  rw [given?, Option.isSome_bind, Option.any_eq_true]
  refine exists_congr fun r => and_congr_right fun _ => ?_
  rw [ClassRename.method?, Option.isSome_or, Bool.or_eq_true]

theorem given?_eq_none_iff : cx.given? m c = none ↔ ¬ cx.Defines m c := by
  rw [← given?_isSome_iff, Option.not_isSome_iff_eq_none]

/-- **A method takes the name that the nearest class gives it.**  If its owner is no mixin class,
the search through the owner and its supertypes ends, whatever the classes are, and finds the new
name of the method.  It finds one if and only if the renames have an entry for the method in a class
that is reached from the owner.  It is the name that a class gives which has an entry, is as near to
the owner as any class that has one, and comes first among those as near. -/
theorem methodName?_nearest (hmixin : cx.mixins.get? m.owner.qualified = none) :
    let s := cx.file.scope
    let a := m.owner.binary
    (∀ found, s.Finds (cx.given? m) [] [a] found ↔ found = cx.methodName? m) ∧
    ((cx.methodName? m).isSome = true ↔ ∃ c, s.Reaches a c ∧ cx.Defines m c) ∧
    ∀ new, cx.methodName? m = some new ↔
      ∃ k front c back, s.ring a k = front ++ c :: back ∧ s.AtDistance a k c ∧ cx.Gives m c new ∧
        (∀ j < k, ∀ b, s.AtDistance a j b → ¬ cx.Defines m b) ∧ ∀ b ∈ front, ¬ cx.Defines m b := by
  intro s a
  have hname : cx.methodName? m = (s.ancestry a).findSome? (cx.given? m) := by
    rw [methodName?, hmixin]
    rfl
  refine ⟨fun found => ?_, ?_, fun new => ?_⟩
  · have hfinds := (s.search_ancestry a).finds (cx.given? m)
    rw [← hname] at hfinds
    exact ⟨fun h => h.unique hfinds, fun h => h ▸ hfinds⟩
  · rw [hname, List.isSome_findSome?, List.any_eq_true]
    refine exists_congr fun c => ?_
    rw [Scope.mem_ancestry_iff, given?_isSome_iff]
  · rw [hname, Scope.findSome?_ancestry]
    refine exists_congr fun k => exists_congr fun front => exists_congr fun c =>
      exists_congr fun back => and_congr_right fun hring => ?_
    have hdistance : s.AtDistance a k c := Scope.mem_ring_iff.1 (hring ▸ by simp)
    have hnearer : (∀ b ∈ s.nearer a k, cx.given? m b = none) ↔
        ∀ j < k, ∀ b, s.AtDistance a j b → ¬ cx.Defines m b := by
      simp only [given?_eq_none_iff, Scope.mem_nearer_iff_ring, Scope.mem_ring_iff]
      exact ⟨fun h j hj b hb => h b ⟨j, hj, hb⟩, fun h b ⟨j, hj, hb⟩ => h j hj b hb⟩
    rw [given?_eq_some_iff, and_iff_right hdistance, hnearer]
    simp only [given?_eq_none_iff]

/-! ### Two supertypes at one distance -/

/-- The class `A` has the supertypes `B` and `C`, which both have the supertype `A`; the superclass
of `C` is not known.  Among the classes known to all files there is an `A` without supertypes. -/
def diamondScope : Scope :=
  ⟨.ofList [⟨.ofBinary "A", some "B", ["C"], [], []⟩, ⟨.ofBinary "B", none, ["A"], [], []⟩,
    ⟨.ofBinary "C", some "D", ["A"], [], []⟩], .ofList [⟨.ofBinary "A", none, [], [], []⟩]⟩

/-- Renames in which `B` has an entry for another method, and `C` and `D` have one for `f`. -/
def diamondRenames : Renames :=
  ((Renames.empty.declare "B" "B" fun c => c.addMethod ⟨"f", some "(I)V"⟩ "other").declare
    "C" "C" fun c => (c.addMethod ⟨"f", none⟩ "byName").addMethod ⟨"f", some "()V"⟩ "g").declare
    "D" "D" fun c => c.addMethod ⟨"f", none⟩ "far"

def diamondContext : Context :=
  .ofFile ⟨"", .java, "", .node .sourceFile [], .empty, .empty, diamondScope⟩ diamondRenames false

def diamondMethod : Method := ⟨.ofBinary "A", "f", "()V", false, false, []⟩

theorem diamondMethod_renamed :
    diamondContext.mixins.get? diamondMethod.owner.qualified = none ∧
    diamondContext.file.scope.ring "A" 1 = ["B", "C"] ∧
    diamondContext.methodName? diamondMethod = some "g" := by
  have hmixin : diamondContext.mixins.get? diamondMethod.owner.qualified = none := by decide
  have hzero : diamondScope.ring "A" 0 = ["A"] := diamondScope.ring_zero "A"
  have hone : diamondScope.ring "A" 1 = ["B", "C"] := by decide +kernel
  have hgiven : ∀ c ∈ ["A", "B"], diamondContext.given? diamondMethod c = none := by decide +kernel
  have hC : diamondContext.given? diamondMethod "C" = some "g" := by decide +kernel
  refine ⟨hmixin, hone, ((methodName?_nearest hmixin).2.2 "g").2
    ⟨1, ["B"], "C", [], hone, Scope.mem_ring_iff.1 (hone ▸ by simp), given?_eq_some_iff.1 hC, ?_,
      ?_⟩⟩
  · intro j hj b hb
    obtain rfl : j = 0 := by omega
    have hmem : b ∈ diamondScope.ring "A" 0 := Scope.mem_ring_iff.2 hb
    rw [hzero, List.mem_singleton] at hmem
    exact given?_eq_none_iff.1 (hgiven b (by simp [hmem]))
  · intro b hb
    rw [List.mem_singleton] at hb
    exact given?_eq_none_iff.1 (hgiven b (by simp [hb]))

end SourceRename.Context
