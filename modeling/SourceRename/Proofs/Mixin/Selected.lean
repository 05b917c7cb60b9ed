import SourceRename.Proofs.Rename.Inherited
import SourceRename.Proofs.Renames.Descriptor

/-!
# Selectors and references

A selector `La/pkg/A;name()V` of an injection point and a reference to the same method look for the
new name in two ways.  The reference takes the name that the nearest class from its owner gives
(`Context.methodName?_nearest`).  The selector looks for the nearest class that declares the method,
and takes the name that the nearest class gives from there on; where it finds none, it takes the one
in the table of its owner:

    name = ((declared?.bind cx.methodName?).or (cx.given? q q.owner.binary)).getD s.name

So the two read the same where the owner declares the method itself.  Where a supertype does, what
lies beside that supertype is hidden from the selector, and its owner's table comes last instead of
first. `Context.renameSelector_agrees_iff` says when this makes a difference. -/

namespace SourceRename

theorem Scope.ancestry_eq_cons (s : Scope) (a : String) : ∃ rest, s.ancestry a = a :: rest := by
  rw [ancestry, reach_cons, if_pos List.mem_cons_self]
  exact ⟨_, rfl⟩

theorem Scope.signature_of_declaredMethod? {s : Scope} {owner name descriptor : String} {m : Method}
    (h : s.declaredMethod? owner name descriptor = some m) :
    m.name = name ∧ m.descriptor = descriptor := by
  obtain ⟨c, -, hc⟩ := List.exists_of_findSome?_eq_some h
  obtain ⟨declaration, -, hm⟩ := Option.bind_eq_some_iff.1 hc
  have hsame := List.find?_some hm
  rw [Bool.and_eq_true, beq_iff_eq, beq_iff_eq] at hsame
  exact hsame

namespace Context

variable {cx : Context} {s : Selector} {owner descriptor new : String} {m q : Method}

/-- A selector of a method with new types and the given name. -/
def spelled (cx : Context) (s : Selector) (descriptor name : String) : String :=
  String.ofList (cx.renames.renameType s.owner.toList ++ name.toList ++
    (cx.renames.renameDescriptor descriptor).toList)

theorem spelled_inj {a b : String} :
    cx.spelled s descriptor a = cx.spelled s descriptor b ↔ a = b := by
  constructor
  · intro h
    have hlist := String.ofList_injective h
    rw [List.append_cancel_right_eq, List.append_cancel_left_eq] at hlist
    exact String.toList_injective hlist
  · exact fun h => h ▸ rfl

section

variable (hmixins : cx.mixins = .empty)
include hmixins

theorem methodName?_of_no_mixins (m : Method) : cx.methodName? m = cx.inheritedName? m := by
  rw [methodName?, hmixins, Table.get?_empty]

theorem methodName?_of_given (h : cx.given? m m.owner.binary = some new) :
    cx.methodName? m = some new := by
  obtain ⟨rest, hrest⟩ := cx.file.scope.ancestry_eq_cons m.owner.binary
  rw [methodName?_of_no_mixins hmixins, inheritedName?, hrest, List.findSome?_cons,
    show (cx.renames.find? m.owner.binary).bind (·.method? m.name m.descriptor) = some new from h]

theorem methodName?_congr (howner : m.owner.binary = q.owner.binary) (hname : m.name = q.name)
    (hdescriptor : m.descriptor = q.descriptor) : cx.methodName? m = cx.methodName? q := by
  rw [methodName?_of_no_mixins hmixins, methodName?_of_no_mixins hmixins, inheritedName?,
    inheritedName?, howner, hname, hdescriptor]

end

/-! ### The name in a selector -/

section

variable (howner : s.ownerName? = some owner)
include howner

theorem ofType?_owner : cx.renames.ofType? s.owner.toList = cx.renames.find? owner := by
  have hhead : s.owner.toList = 'L' :: (owner.toList ++ [';']) :=
    Renames.elementClass?_eq_some_iff.1 howner
  have helement : Renames.element s.owner.toList = s.owner.toList := by
    rw [Renames.element, hhead]
    exact List.dropWhile_cons_of_neg (by decide)
  rw [Renames.ofType?, helement, show Renames.elementClass? s.owner.toList = some owner from howner,
    Option.bind_some]

theorem selectedMethod?_eq : cx.selectedMethod? s descriptor =
    ((cx.file.scope.declaredMethod? owner s.name descriptor).bind cx.methodName?).or
      ((cx.renames.find? owner).bind (·.method? s.name descriptor)) := by
  rw [selectedMethod?, ofType?_owner howner, howner]
  rfl

end

/-- **When a selector and a reference agree.**  Let no mixin class be registered, let a selector
name a method of `owner`, and let `q` be the method that a reference of this owner, name and
descriptor means.

The selector is written with the new name of the method that the nearest class from `owner`
declares, else with the one in the table of `owner`, else with the old name.

This is the new name of `q`, or the old one if it has none, if and only if: the declared method,
where it has a new name, has the one of `q`; and where no declared method has one, the table of
`owner` has an entry, or `q` gets no other name than the old one.  In particular it is so if the
declared method is that of `owner` itself. -/
theorem renameSelector_agrees_iff (hmixins : cx.mixins = .empty) (howner : s.ownerName? = some owner)
    (hmember : s.member = .method descriptor)
    (hclass : Naming.internalName q.owner.binary = Naming.internalName owner)
    (hname : q.name = s.name) (hdescriptor : q.descriptor = descriptor) :
    let declared? := cx.file.scope.declaredMethod? owner s.name descriptor
    cx.renameSelector s = cx.spelled s descriptor
      (((declared?.bind cx.methodName?).or (cx.given? q q.owner.binary)).getD s.name) ∧
    (cx.renameSelector s = cx.spelled s descriptor ((cx.methodName? q).getD s.name) ↔
      (∀ new, declared?.bind cx.methodName? = some new → (cx.methodName? q).getD s.name = new) ∧
      (declared?.bind cx.methodName? = none →
        cx.Defines q q.owner.binary ∨ ∀ new, cx.methodName? q = some new → new = s.name)) ∧
    (∀ m, declared? = some m → m.owner.binary = q.owner.binary →
      cx.renameSelector s = cx.spelled s descriptor ((cx.methodName? q).getD s.name)) := by
  intro declared?
  have hown : (cx.renames.find? owner).bind (·.method? s.name descriptor) =
      cx.given? q q.owner.binary := by
    rw [given?, Renames.find?, Renames.find?, hclass, hname, hdescriptor]
  have hwritten : cx.renameSelector s = cx.spelled s descriptor
      (((declared?.bind cx.methodName?).or (cx.given? q q.owner.binary)).getD s.name) := by
    rw [renameSelector, hmember]
    simp only [selectedMethod?_eq howner, hown]
    rfl
  refine ⟨hwritten, ?_, ?_⟩
  · rw [hwritten, spelled_inj]
    cases hdeclared : declared?.bind cx.methodName? with
    | some new => simp [eq_comm]
    | none =>
      rw [Option.none_or]
      cases hgiven : cx.given? q q.owner.binary with
      | some new =>
        have hdefines : cx.Defines q q.owner.binary := given?_isSome_iff.1 (by rw [hgiven]; rfl)
        rw [methodName?_of_given hmixins hgiven]
        refine iff_of_true rfl ⟨fun new hnone => ?_, fun _ => .inl hdefines⟩
        exact absurd hnone.symm (Option.some_ne_none new)
      | none =>
        have hnot : ¬ cx.Defines q q.owner.binary := given?_eq_none_iff.1 hgiven
        cases hmethod : cx.methodName? q with
        | none =>
          refine iff_of_true rfl ⟨fun new hnone => ?_, fun _ => .inr fun new hnone => ?_⟩
          · exact absurd hnone.symm (Option.some_ne_none new)
          · exact absurd hnone.symm (Option.some_ne_none new)
        | some new => simp [hnot, eq_comm]
  · intro m hm hsame
    obtain ⟨hmname, hmdescriptor⟩ := Scope.signature_of_declaredMethod? hm
    have hcongr : cx.methodName? m = cx.methodName? q :=
      methodName?_congr hmixins hsame (hmname.trans hname.symm) (hmdescriptor.trans hdescriptor.symm)
    rw [hwritten, hm, Option.bind_some, hcongr]
    cases hgiven : cx.given? q q.owner.binary with
    | some new => rw [methodName?_of_given hmixins hgiven, Option.some_or]
    | none => rw [Option.or_none]

/-! ### An entry beside the declaration -/

/-- The class `A` has the superclass `P`, which declares `f` and `g`, and the interface `I`. -/
def siblingScope : Scope :=
  ⟨.empty, .ofList [⟨.ofBinary "A", some "P", ["I"], [], []⟩,
    ⟨.ofBinary "P", none, [], [⟨.ofBinary "P", "f", "()V", false, false, []⟩,
      ⟨.ofBinary "P", "g", "()V", false, false, []⟩], []⟩]⟩

/-- Renames in which the interface has an entry for `f`, and the superclass one for `g`. -/
def siblingRenames : Renames :=
  (Renames.empty.declare "I" "I" fun c => c.addMethod ⟨"f", some "()V"⟩ "z").declare "P" "P"
    fun c => c.addMethod ⟨"g", some "()V"⟩ "y"

def siblingContext : Context :=
  .ofFile ⟨"", .java, "", .node .sourceFile [], .empty, .empty, siblingScope⟩ siblingRenames false

def siblingMethod (name : String) : Method := ⟨.ofBinary "A", name, "()V", false, false, []⟩

def siblingSelector (name : String) : Selector := ⟨"LA;", name, .method "()V"⟩

theorem ancestry_sibling : siblingScope.ancestry "A" = ["A", "P", "I"] ∧
    siblingScope.ancestry "P" = ["P"] := by
  have hmentioned : siblingScope.mentioned = ["P", "I"] := by decide
  have hA : siblingScope.supertypes "A" = ["P", "I"] := by decide
  have hP : siblingScope.supertypes "P" = [] := by decide
  have hI : siblingScope.supertypes "I" = [] := by decide
  constructor <;>
    simp [Scope.ancestry, Scope.reach_cons, Scope.reach_nil, Scope.without, hmentioned, hA, hP, hI]

theorem declaredMethod?_sibling {name : String} (h : name = "f" ∨ name = "g") :
    siblingContext.file.scope.declaredMethod? "A" name "()V" =
      some ⟨.ofBinary "P", name, "()V", false, false, []⟩ := by
  show siblingScope.declaredMethod? "A" name "()V" = _
  rw [Scope.declaredMethod?, ancestry_sibling.1]
  rcases h with rfl | rfl
  · decide +kernel
  · decide +kernel

theorem methodName?_parent :
    siblingContext.methodName? ⟨.ofBinary "P", "f", "()V", false, false, []⟩ = none ∧
    siblingContext.methodName? ⟨.ofBinary "P", "g", "()V", false, false, []⟩ = some "y" := by
  have hancestry : siblingContext.file.scope.ancestry "P" = ["P"] := ancestry_sibling.2
  rw [methodName?_of_no_mixins rfl, methodName?_of_no_mixins rfl, inheritedName?, inheritedName?,
    show (ClassName.ofBinary "P").binary = "P" from rfl, hancestry]
  decide +kernel

theorem methodName?_sibling : siblingContext.methodName? (siblingMethod "f") = some "z" ∧
    siblingContext.methodName? (siblingMethod "g") = some "y" := by
  have hancestry : siblingContext.file.scope.ancestry "A" = ["A", "P", "I"] := ancestry_sibling.1
  rw [methodName?_of_no_mixins rfl, methodName?_of_no_mixins rfl, inheritedName?, inheritedName?,
    siblingMethod, siblingMethod, show (ClassName.ofBinary "A").binary = "A" from rfl, hancestry]
  decide +kernel

/-- The selector of `g` is written with the new name of a reference to `g`. -/
theorem g_agrees : Selector.parse "LA;g()V" = some (siblingSelector "g") ∧
    siblingContext.mixins = .empty ∧ (siblingSelector "g").ownerName? = some "A" ∧
    siblingContext.methodName? (siblingMethod "g") = some "y" ∧
    siblingContext.renameSelector (siblingSelector "g") = "LA;y()V" := by
  have howner : (siblingSelector "g").ownerName? = some "A" := by decide +kernel
  have hmixins : siblingContext.mixins = .empty := rfl
  have hagrees := (renameSelector_agrees_iff (q := siblingMethod "g") hmixins howner rfl rfl rfl
    rfl).2.1
  rw [show (siblingSelector "g").name = "g" from rfl, declaredMethod?_sibling (.inr rfl),
    Option.bind_some, methodName?_parent.2, methodName?_sibling.2] at hagrees
  refine ⟨rfl, hmixins, howner, methodName?_sibling.2, ?_⟩
  rw [hagrees.2 ⟨fun new hnew => Option.some.inj hnew, nofun⟩]
  decide +kernel

/-- **The selector of `f` stays, and a reference to `f` is renamed.**  The interface that has the
entry lies beside the superclass that declares the method. -/
theorem f_differs : Selector.parse "LA;f()V" = some (siblingSelector "f") ∧
    siblingContext.methodName? (siblingMethod "f") = some "z" ∧
    siblingContext.renameSelector (siblingSelector "f") = "LA;f()V" ∧
    ¬ ∀ (cx : Context) (s : Selector) (owner descriptor : String) (q : Method),
      cx.mixins = .empty → s.ownerName? = some owner → s.member = .method descriptor →
      Naming.internalName q.owner.binary = Naming.internalName owner → q.name = s.name →
      q.descriptor = descriptor →
        cx.renameSelector s = cx.spelled s descriptor ((cx.methodName? q).getD s.name) := by
  have howner : (siblingSelector "f").ownerName? = some "A" := by decide +kernel
  have hselected : siblingContext.selectedMethod? (siblingSelector "f") "()V" = none := by
    rw [selectedMethod?_eq howner, show (siblingSelector "f").name = "f" from rfl,
      declaredMethod?_sibling (.inl rfl), Option.bind_some, methodName?_parent.1]
    decide +kernel
  have hwritten : siblingContext.renameSelector (siblingSelector "f") =
      siblingContext.spelled (siblingSelector "f") "()V" "f" := by
    rw [renameSelector]
    show String.ofList (_ ++ ((siblingContext.selectedMethod? (siblingSelector "f") "()V").getD
      "f").toList ++ _) = _
    rw [hselected]
    rfl
  refine ⟨rfl, methodName?_sibling.1, ?_, fun h => ?_⟩
  · rw [hwritten]
    decide +kernel
  · have hsame := h siblingContext (siblingSelector "f") "A" "()V" (siblingMethod "f") rfl howner rfl
      rfl rfl rfl
    rw [hwritten, spelled_inj, methodName?_sibling.1] at hsame
    exact absurd hsame (by decide)

end Context

end SourceRename
