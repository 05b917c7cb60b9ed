import SourceRename.Proofs.Symbol.Nearest
import SourceRename.Symbol.JavaType

/-!
# Assignability of references

Between classes, arrays and `null`, `JavaType.accepts` has a rule for each pair of forms.  It is
reflexive and transitive (`JavaType.accepts_preorder`) as long as the classes that hold arrays have
no supertypes: an array fits `java.lang.Object`, `java.lang.Cloneable` and `java.io.Serializable`,
but it would not fit a class that one of these extends.

Nothing else is asked of the classes.  They may extend one another in a circle and may be unknown.
For two classes the answer comes from a walk through the supertypes (`Scope.Seeks`), which ends with
yes if and only if the one class is reached from the other (`Scope.seeks_iff`).
-/

namespace SourceRename

/-! ### The walk through the supertypes -/

namespace Scope

variable {s : Scope} {a b c place : String} {visited queue listed : List String} {x y : Bool}

theorem Reaches.trans (hab : s.Reaches a b) (hbc : s.Reaches b c) : s.Reaches a c := by
  induction hbc with
  | refl => exact hab
  | tail _ hc ih => exact .tail ih hc

theorem Reaches.eq_of_supertypes_nil (ha : s.supertypes a = []) (h : s.Reaches a b) : a = b := by
  refine h.closed (P := fun n => a = n) ?_ rfl
  rintro n rfl m hm
  rw [ha] at hm
  exact absurd hm List.not_mem_nil

/-- The walk for one class, with the names visited, the queue and the answer.  It is over when the
class is at the front, also for the second time. -/
inductive Seeks (s : Scope) (place : String) : List String → List String → Bool → Prop
  | nothing {visited : List String} : Seeks s place visited [] false
  | found {visited queue : List String} : Seeks s place visited (place :: queue) true
  | again {visited queue : List String} {name : String} {answer : Bool} : name ≠ place →
      name ∈ visited → Seeks s place visited queue answer →
      Seeks s place visited (name :: queue) answer
  | miss {visited queue : List String} {name : String} {answer : Bool} : name ≠ place →
      name ∉ visited → Seeks s place (name :: visited) (queue ++ s.supertypes name) answer →
      Seeks s place visited (name :: queue) answer

/-- The walk for a class not visited yet ends with the answer whether the search lists it. -/
theorem Search.seeks (h : s.Search visited queue listed) (hplace : place ∉ visited) :
    s.Seeks place visited queue (decide (place ∈ listed)) := by
  induction h with
  | done => exact .nothing
  | again hname _ ih =>
    refine .again ?_ hname (ih hplace)
    rintro rfl
    exact hplace hname
  | @visit visited queue listed name hname _ ih =>
    by_cases hfound : name = place
    · subst hfound
      rw [decide_eq_true List.mem_cons_self]
      exact .found
    · have hrest : place ∉ name :: visited := by
        rw [List.mem_cons, not_or]
        exact ⟨Ne.symm hfound, hplace⟩
      have hlisted : place ∈ name :: listed ↔ place ∈ listed := by
        rw [List.mem_cons, or_iff_right (Ne.symm hfound)]
      rw [decide_eq_decide.2 hlisted]
      exact .miss hfound hname (ih hrest)

theorem Seeks.unique (hx : s.Seeks place visited queue x) (hy : s.Seeks place visited queue y) :
    x = y := by
  induction hx with
  | nothing => cases hy; rfl
  | found =>
    cases hy with
    | found => rfl
    | again hne => exact absurd rfl hne
    | miss hne => exact absurd rfl hne
  | again hne hname _ ih =>
    cases hy with
    | found => exact absurd rfl hne
    | again _ _ h => exact ih h
    | miss _ hnew => exact absurd hname hnew
  | miss hne hname _ ih =>
    cases hy with
    | found => exact absurd rfl hne
    | again _ hmem => exact absurd hmem hname
    | miss _ _ h => exact ih h

/-- **The walk ends for all classes of all scopes**, with yes if and only if the class is reached.
-/
theorem seeks_iff {answer : Bool} :
    s.Seeks place [] [a] answer ↔ (answer = true ↔ s.Reaches a place) := by
  have hwalk : s.Seeks place [] [a] (decide (place ∈ s.ancestry a)) :=
    (s.search_ancestry a).seeks List.not_mem_nil
  have hanswer : decide (place ∈ s.ancestry a) = true ↔ s.Reaches a place := by
    rw [decide_eq_true_eq, mem_ancestry_iff]
  constructor
  · intro h
    rw [h.unique hwalk]
    exact hanswer
  · intro h
    rw [Bool.eq_iff_iff.2 (h.trans hanswer.symm)]
    exact hwalk

end Scope

/-! ### The rules, one for each pair of forms -/

namespace JavaType

variable {s : Scope} {place given sub : String} {a b c t : JavaType}

/-- The classes that hold arrays have no supertypes. -/
def RootsAlone (s : Scope) : Prop := ∀ root ∈ arraySupertypes, s.supertypes root = []

theorem accepts_refl (s : Scope) (t : JavaType) : t.accepts s t = true := by
  rw [accepts.eq_def, beq_self_eq_true, Bool.true_or]

theorem class_accepts_class_iff :
    (classType place).accepts s (classType given) = true ↔ place = object ∨ s.Reaches given place := by
  rw [accepts]
  simp only [Bool.or_eq_true, beq_iff_eq, classType.injEq, List.contains_eq_mem, decide_eq_true_eq,
    Scope.mem_ancestry_iff]
  constructor
  · rintro (rfl | h)
    · exact .inr .refl
    · exact h
  · exact .inr

theorem class_accepts_array_iff :
    (classType place).accepts s (array t) = true ↔ place ∈ arraySupertypes := by
  rw [accepts]
  simp

theorem array_accepts_array_iff :
    (array a).accepts s (array b) = true ↔
      a = b ∨ a.isReference = true ∧ b.isReference = true ∧ a.accepts s b = true := by
  rw [accepts]
  simp [and_assoc]

theorem array_accepts_class : (array a).accepts s (classType given) = false := rfl

theorem accepts_null (ht : t.isReference = true) : t.accepts s null = true := by
  cases t with
  | primitive p => exact absurd ht Bool.false_ne_true
  | classType name => rfl
  | array t => rfl
  | null => rfl

theorem eq_null_of_null_accepts (h : null.accepts s t = true) : t = null := by
  cases t with
  | primitive p => exact absurd h Bool.false_ne_true
  | classType name => exact absurd h Bool.false_ne_true
  | array t => exact absurd h Bool.false_ne_true
  | null => rfl

/-! ### Two steps in one -/

/-- A class that holds arrays is held only by `java.lang.Object` and by itself. -/
theorem RootsAlone.eq_or_eq (hroots : RootsAlone s) (hsub : sub ∈ arraySupertypes)
    (h : place = object ∨ s.Reaches sub place) : place = object ∨ place = sub :=
  h.imp_right fun hreaches => (hreaches.eq_of_supertypes_nil (hroots sub hsub)).symm

/-- What a class takes, a class that takes the class takes, too. -/
theorem class_accepts_trans (hroots : RootsAlone s)
    (hsub : (classType place).accepts s (classType sub) = true)
    (ht : (classType sub).accepts s t = true) (href : t.isReference = true) :
    (classType place).accepts s t = true := by
  rw [class_accepts_class_iff] at hsub
  cases t with
  | primitive p => exact absurd href Bool.false_ne_true
  | null => exact accepts_null rfl
  | array t =>
    rw [class_accepts_array_iff] at ht ⊢
    rcases hroots.eq_or_eq ht hsub with rfl | rfl
    · exact List.mem_cons_self
    · exact ht
  | classType given =>
    rw [class_accepts_class_iff] at ht ⊢
    rcases ht with rfl | ht
    · exact .inl ((hroots.eq_or_eq List.mem_cons_self hsub).elim id id)
    · exact hsub.imp_right ht.trans

/-- What is accepted by a type that is accepted is accepted.  Arrays accept no classes, so the types
of the elements of all three are compared in turn until one of them is no array. -/
theorem accepts_trans (hroots : RootsAlone s) (ha : a.isReference = true)
    (hb : b.isReference = true) (hc : c.isReference = true) (hab : a.accepts s b = true)
    (hbc : b.accepts s c = true) : a.accepts s c = true := by
  induction a generalizing b c with
  | primitive p => exact absurd ha Bool.false_ne_true
  | null =>
    obtain rfl := eq_null_of_null_accepts hab
    exact hbc
  | classType place =>
    cases b with
    | primitive p => exact absurd hb Bool.false_ne_true
    | null =>
      obtain rfl := eq_null_of_null_accepts hbc
      exact accepts_null rfl
    | classType sub => exact class_accepts_trans hroots hab hbc hc
    | array b =>
      cases c with
      | primitive p => exact absurd hc Bool.false_ne_true
      | null => exact accepts_null rfl
      | classType given => exact absurd hbc (by rw [array_accepts_class]; exact Bool.false_ne_true)
      | array c => exact class_accepts_array_iff.2 (class_accepts_array_iff.1 hab)
  | array a ih =>
    cases b with
    | primitive p => exact absurd hb Bool.false_ne_true
    | null =>
      obtain rfl := eq_null_of_null_accepts hbc
      exact accepts_null rfl
    | classType sub => exact absurd hab (by rw [array_accepts_class]; exact Bool.false_ne_true)
    | array b =>
      cases c with
      | primitive p => exact absurd hc Bool.false_ne_true
      | null => exact accepts_null rfl
      | classType given => exact absurd hbc (by rw [array_accepts_class]; exact Bool.false_ne_true)
      | array c =>
        rw [array_accepts_array_iff] at hab hbc ⊢
        rcases hab with rfl | ⟨haref, hbref, hab⟩
        · exact hbc
        rcases hbc with rfl | ⟨-, hcref, hbc⟩
        · exact .inr ⟨haref, hbref, hab⟩
        · exact .inr ⟨haref, hcref, ih haref hbref hcref hab hbc⟩

/-- **Assignability is a preorder on references.**  Let the classes that hold arrays have no
supertypes.  Then each reference type accepts itself, and what is accepted by a type that is
accepted is accepted.  For two classes the walk through the supertypes ends, and a class other than
`java.lang.Object` accepts those from which it is reached. -/
theorem accepts_preorder (hroots : RootsAlone s) :
    (∀ t : JavaType, t.isReference = true → t.accepts s t = true) ∧
    (∀ a b c : JavaType, a.isReference = true → b.isReference = true → c.isReference = true →
      a.accepts s b = true → b.accepts s c = true → a.accepts s c = true) ∧
    (∀ place given, ∃ answer, s.Seeks place [] [given] answer ∧
      (∀ other, s.Seeks place [] [given] other → other = answer) ∧
      (classType place).accepts s (classType given) = (place == object || answer)) ∧
    ∀ place given, place ≠ object →
      ((classType place).accepts s (classType given) = true ↔ s.Reaches given place) := by
  refine ⟨fun t _ => accepts_refl s t, fun a b c ha hb hc => accepts_trans hroots ha hb hc,
    fun place given => ?_, fun place given hplace => ?_⟩
  · obtain ⟨answer, hanswer⟩ : ∃ answer : Bool, answer = true ↔ s.Reaches given place :=
      ⟨decide (place ∈ s.ancestry given), by rw [decide_eq_true_eq, Scope.mem_ancestry_iff]⟩
    have hwalk : s.Seeks place [] [given] answer := Scope.seeks_iff.2 hanswer
    refine ⟨answer, hwalk, fun other hother => hother.unique hwalk, ?_⟩
    rw [Bool.eq_iff_iff, class_accepts_class_iff, Bool.or_eq_true, beq_iff_eq, hanswer]
  · rw [class_accepts_class_iff, or_iff_right hplace]

/-! ### A circle of classes beside the classes of arrays -/

/-- The classes `A` and `B` extend each other, and `String` is comparable and may be written out.
Of what is above these, only `java.lang.Object` is known. -/
def circleScope : Scope :=
  ⟨.ofList [⟨.ofBinary "A", some "B", ["X"], [], []⟩, ⟨.ofBinary "B", some "A", [], [], []⟩],
    .ofList [⟨.ofBinary object, none, [], [], []⟩,
      ⟨.ofBinary "java.lang.String", some object, ["java.lang.Comparable", "java.io.Serializable"],
        [], []⟩]⟩

theorem circleScope_accepts :
    RootsAlone circleScope ∧
    (array (classType object)).accepts circleScope
      (array (array (classType "java.lang.String"))) = true ∧
    (classType "X").accepts circleScope (classType "B") = true ∧
    (classType "B").accepts circleScope (classType "X") = false := by
  have hroots : RootsAlone circleScope := by
    rw [RootsAlone]
    decide +kernel
  obtain ⟨-, htrans, -, hclasses⟩ := accepts_preorder hroots
  have hreaches : circleScope.Reaches "B" "X" :=
    .tail (.tail .refl (by decide +kernel : "A" ∈ circleScope.supertypes "B"))
      (by decide +kernel)
  have hunknown : circleScope.supertypes "X" = [] := by decide +kernel
  refine ⟨hroots, ?_, (hclasses "X" "B" (by decide)).2 hreaches, ?_⟩
  · exact htrans _ (array (classType "java.io.Serializable")) _ rfl rfl rfl
      (array_accepts_array_iff.2 (.inr ⟨rfl, rfl, class_accepts_class_iff.2 (.inl rfl)⟩))
      (array_accepts_array_iff.2 (.inr ⟨rfl, rfl, class_accepts_array_iff.2 (by decide)⟩))
  · rw [Bool.eq_false_iff, Ne, hclasses "B" "X" (by decide)]
    intro h
    exact absurd (h.eq_of_supertypes_nil hunknown) (by decide)

end JavaType

end SourceRename
