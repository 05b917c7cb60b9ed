import SourceRename.Proofs.Symbol.Assignable

/-!
# Boxing and supertypes

A variable of a class takes a value of a primitive type in a box.  What takes boxes of the type
should take the value, too: a variable of `java.lang.Number` takes objects of `java.lang.Integer`,
and so it should take an `int`.

`JavaType.accepts` takes a primitive value for two classes only, the box and `java.lang.Object`
(`class_accepts_primitive_iff`), while from the box it walks through all the supertypes:

    accepts s place (box p)      ↔  place = object ∨ s.Reaches p.box place
    accepts s place (primitive)  ↔  place = object ∨ place = p.box

So a value fits wherever it stands where its box fits, and the converse is lost at each class that
is reached from the box and is neither of the two (`boxing_composes_iff`). -/

namespace SourceRename.JavaType

variable {s : Scope} {p : Primitive} {place : String}

/-- A variable of a class takes a primitive value if and only if it takes the box of the value. -/
def Composes (s : Scope) (p : Primitive) (place : String) : Prop :=
  (classType place).accepts s (primitive p) = true ↔
    (classType place).accepts s (classType p.box) = true

theorem class_accepts_primitive_iff :
    (classType place).accepts s (primitive p) = true ↔ place = p.box ∨ place = object := by
  rw [accepts]
  simp

theorem class_accepts_box (h : (classType place).accepts s (primitive p) = true) :
    (classType place).accepts s (classType p.box) = true := by
  rw [class_accepts_class_iff]
  rcases class_accepts_primitive_iff.1 h with rfl | rfl
  · exact .inr .refl
  · exact .inl rfl

/-- The box fits and the value does not at what lies between the box and `java.lang.Object`. -/
theorem composes_iff :
    Composes s p place ↔ (s.Reaches p.box place → place = p.box ∨ place = object) := by
  constructor
  · intro h hreaches
    exact class_accepts_primitive_iff.1 (h.2 (class_accepts_class_iff.2 (.inr hreaches)))
  · intro h
    refine ⟨class_accepts_box, fun hbox => class_accepts_primitive_iff.2 ?_⟩
    rcases class_accepts_class_iff.1 hbox with rfl | hreaches
    · exact .inr rfl
    · exact h hreaches

/-- **Where boxing composes with supertypes.**  A class that takes a primitive value takes its box.
The converse holds of a class if and only if the class is the box, or `java.lang.Object`, or not
reached from the box; so it holds of all classes if and only if the walk from the box lists nothing
but these two. -/
theorem boxing_composes_iff (s : Scope) (p : Primitive) :
    (∀ place, (classType place).accepts s (primitive p) = true →
      (classType place).accepts s (classType p.box) = true) ∧
    (∀ place, Composes s p place ↔ (s.Reaches p.box place → place = p.box ∨ place = object)) ∧
    ((∀ place, Composes s p place) ↔ ∀ c ∈ s.ancestry p.box, c = p.box ∨ c = object) := by
  refine ⟨fun place => class_accepts_box, fun place => composes_iff, ?_⟩
  constructor
  · intro h c hc
    exact composes_iff.1 (h c) (Scope.mem_ancestry_iff.1 hc)
  · intro h place
    exact composes_iff.2 fun hreaches => h place (Scope.mem_ancestry_iff.2 hreaches)

/-! ### Numbers and truth values -/

def boxScope : Scope :=
  ⟨.empty, .ofList [⟨.ofBinary "java.lang.Integer", some "java.lang.Number", [], [], []⟩,
    ⟨.ofBinary "java.lang.Number", some object, [], [], []⟩,
    ⟨.ofBinary "java.lang.Boolean", some object, [], [], []⟩]⟩

/-- What takes a `Boolean` takes a `boolean`, and `Object` takes an `int` as it takes an `Integer`.
-/
theorem boolean_composes : (∀ place, Composes boxScope .boolean place) ∧
    (classType object).accepts boxScope (primitive .int) = true ∧
    (classType object).accepts boxScope (classType Primitive.int.box) = true := by
  obtain ⟨-, -, hall⟩ := boxing_composes_iff boxScope .boolean
  obtain ⟨hbox, -, -⟩ := boxing_composes_iff boxScope .int
  have hobject : (classType object).accepts boxScope (primitive .int) = true :=
    class_accepts_primitive_iff.2 (.inr rfl)
  refine ⟨hall.2 fun c hc => ?_, hobject, hbox object hobject⟩
  have hboolean : boxScope.supertypes Primitive.boolean.box = [object] := by decide +kernel
  have hroot : boxScope.supertypes object = [] := by decide +kernel
  refine (Scope.mem_ancestry_iff.1 hc).closed
    (P := fun c => c = Primitive.boolean.box ∨ c = object) ?_ (.inl rfl)
  rintro b (rfl | rfl) d hd
  · rw [hboolean] at hd
    exact .inr (List.mem_singleton.1 hd)
  · rw [hroot] at hd
    exact absurd hd List.not_mem_nil

/-- **A `Number` takes an `Integer`, and no `int`.** -/
theorem number_refuses_int :
    (classType "java.lang.Number").accepts boxScope (classType Primitive.int.box) = true ∧
    (classType "java.lang.Number").accepts boxScope (primitive .int) = false ∧
    ¬ ∀ (s : Scope) (p : Primitive) (place : String), Composes s p place := by
  have hreaches : boxScope.Reaches Primitive.int.box "java.lang.Number" :=
    .tail .refl (by decide +kernel)
  have hbox : (classType "java.lang.Number").accepts boxScope
      (classType Primitive.int.box) = true := class_accepts_class_iff.2 (.inr hreaches)
  have hvalue : (classType "java.lang.Number").accepts boxScope (primitive .int) = false := by
    rw [Bool.eq_false_iff, Ne, class_accepts_primitive_iff]
    decide
  refine ⟨hbox, hvalue, fun h => ?_⟩
  have hfits := (h boxScope .int "java.lang.Number").2 hbox
  rw [hvalue] at hfits
  exact Bool.false_ne_true hfits

end SourceRename.JavaType
