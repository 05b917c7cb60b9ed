import SourceRename.Proofs.Mixin.Gating
import SourceRename.Proofs.Rename.Passes

/-!
# Mixin classes among the supertypes

A class may extend a mixin class and override methods that the mixin class has from its target.  The
new names of these are found with the target alone:

    class   renames of the class   renames of its target
    `C`     -                      no mixin
    `M`     -                      `a()I ↦ b`

The search through the supertypes asks for the renames of each class itself, whatever mixin classes
are registered.  It passes over `M`, and the method of `C` keeps its name
(`Mixin.target_passed_over`).  So the name found is that of the first class that offers one, by
itself or by its target, exactly if that class has an entry of its own or the name from its target
is found all the same (`Context.offered_iff`). -/

namespace SourceRename

namespace Context

variable {cx : Context} {m : Method} {c new : String} {gives : String → Option String}

def className (cx : Context) (c : String) : ClassName :=
  ((cx.file.scope.find? c).map ClassDecl.name).getD (.ofBinary c)

/-- The new name of a method that the target of a registered mixin class has for it. -/
def targetGiven? (cx : Context) (m : Method) (c : String) : Option String :=
  (cx.mixins.get? (cx.className c).qualified).bind (·.method? m.name m.descriptor)

/-- The class has the new name for the method, or the class that it is mixed into. -/
def Offers (cx : Context) (m : Method) (c new : String) : Prop :=
  cx.given? m c = some new ∨ cx.targetGiven? m c = some new

/-- Each class gives what it offers.  Where it has another name than its target, it gives either. -/
structure Picks (cx : Context) (m : Method) (gives : String → Option String) : Prop where
  offers : ∀ {c new}, gives c = some new → cx.Offers m c new
  nothing : ∀ {c}, gives c = none → ∀ new, ¬ cx.Offers m c new

/-- What the search finds that asks mixin classes for the names of their targets, too. -/
def Offered (cx : Context) (m : Method) (found : Option String) : Prop :=
  ∃ gives, cx.Picks m gives ∧ cx.file.scope.Finds gives [] [m.owner.binary] found

def OffersFirst (cx : Context) (m : Method) (c : String) : Prop :=
  ∃ front back, cx.file.scope.ancestry m.owner.binary = front ++ c :: back ∧
    (∃ new, cx.Offers m c new) ∧ ∀ b ∈ front, ∀ new, ¬ cx.Offers m b new

/-- One way to pick: the own name before that of the target. -/
theorem picks_or (cx : Context) (m : Method) :
    cx.Picks m fun c => (cx.given? m c).or (cx.targetGiven? m c) where
  offers h := (Option.or_eq_some_iff.1 h).imp_right And.right
  nothing h new hoffers := by
    obtain ⟨hgiven, htarget⟩ := Option.or_eq_none_iff.1 h
    rcases hoffers with hoffers | hoffers
    · exact absurd (hgiven.symm.trans hoffers) (by simp)
    · exact absurd (htarget.symm.trans hoffers) (by simp)

/-- Nothing is found in front of the first class that offers a name. -/
theorem OffersFirst.findSome? (hfirst : cx.OffersFirst m c) (hgives : gives c = some new)
    (hoffers : ∀ {b n}, gives b = some n → cx.Offers m b n) :
    (cx.file.scope.ancestry m.owner.binary).findSome? gives = some new := by
  obtain ⟨front, back, hlist, -, hfront⟩ := hfirst
  refine List.findSome?_eq_some_iff.2 ⟨front, c, back, hlist, hgives, fun b hb => ?_⟩
  by_contra hsome
  obtain ⟨n, hn⟩ := Option.ne_none_iff_exists'.1 hsome
  exact hfront b hb n (hoffers hn)

theorem Picks.exists_of_first (h : cx.Picks m gives) (hfirst : cx.OffersFirst m c) :
    ∃ new, gives c = some new := by
  obtain ⟨-, -, -, ⟨new, hnew⟩, -⟩ := hfirst
  refine Option.ne_none_iff_exists'.1 fun hnone => ?_
  exact h.nothing hnone new hnew

theorem Picks.offersFirst (h : cx.Picks m gives)
    (hfound : (cx.file.scope.ancestry m.owner.binary).findSome? gives = some new) :
    ∃ c, cx.OffersFirst m c ∧ gives c = some new := by
  obtain ⟨front, c, back, hlist, hgives, hfront⟩ := List.findSome?_eq_some_iff.1 hfound
  exact ⟨c, ⟨front, back, hlist, ⟨new, h.offers hgives⟩, fun b hb => h.nothing (hfront b hb)⟩, hgives⟩

theorem findSome?_or (hfirst : ∀ c, cx.OffersFirst m c → (cx.given? m c).isSome = true ∨
      ∃ new, cx.targetGiven? m c = some new ∧ cx.inheritedName? m = some new) :
    (cx.file.scope.ancestry m.owner.binary).findSome?
      (fun c => (cx.given? m c).or (cx.targetGiven? m c)) = cx.inheritedName? m := by
  have hinherited : cx.inheritedName? m =
      (cx.file.scope.ancestry m.owner.binary).findSome? (cx.given? m) := rfl
  have hpicks := cx.picks_or m
  cases hfound : (cx.file.scope.ancestry m.owner.binary).findSome?
      (fun c => (cx.given? m c).or (cx.targetGiven? m c)) with
  | none =>
    rw [List.findSome?_eq_none_iff] at hfound
    rw [hinherited]
    refine (List.findSome?_eq_none_iff.2 fun c hc => ?_).symm
    exact (Option.or_eq_none_iff.1 (hfound c hc)).1
  | some new =>
    obtain ⟨c, hc, hgives⟩ := hpicks.offersFirst hfound
    rcases Option.or_eq_some_iff.1 hgives with hown | ⟨hnone, htarget⟩
    · rw [hinherited]
      exact (hc.findSome? hown .inl).symm
    · rcases hfirst c hc with hsome | ⟨other, hother, hname⟩
      · rw [hnone] at hsome
        exact absurd hsome Bool.false_ne_true
      · rw [hname, ← hother, htarget]

/-- **Names of the target are passed over.**  Let the owner of a method be no mixin class.  Then its
name is what the search through the supertypes finds in the renames of the classes themselves, with
whatever mixin classes are registered.  This is the name that the first class offers which offers
one, by itself or by its target, if and only if that class has an entry of its own for the method,
or the name from its target is found all the same. -/
theorem offered_iff (hmixin : cx.mixins.get? m.owner.qualified = none) :
    (∀ mixins : MixinTable, mixins.get? m.owner.qualified = none →
      { cx with mixins := mixins }.methodName? m = cx.methodName? m) ∧
    cx.file.scope.Finds (cx.given? m) [] [m.owner.binary] (cx.methodName? m) ∧
    (cx.Offered m (cx.methodName? m) ↔ ∀ c, cx.OffersFirst m c → (cx.given? m c).isSome = true ∨
      ∃ new, cx.targetGiven? m c = some new ∧ cx.methodName? m = some new) := by
  have hname : cx.methodName? m = cx.inheritedName? m := by rw [methodName?, hmixin]
  have hsearch := cx.file.scope.search_ancestry m.owner.binary
  rw [hname]
  refine ⟨fun mixins hnone => ?_, hsearch.finds _, ?_, fun hfirst => ?_⟩
  · have hwith : { cx with mixins := mixins }.methodName? m =
        { cx with mixins := mixins }.inheritedName? m := by
      rw [methodName?]
      dsimp only
      rw [hnone]
    exact hwith
  · rintro ⟨gives, hpicks, hfinds⟩ c hfirst
    obtain ⟨new, hnew⟩ := hpicks.exists_of_first hfirst
    have hfound := hfirst.findSome? hnew hpicks.offers
    rw [← hfinds.unique (hsearch.finds gives)] at hfound
    rcases hpicks.offers hnew with hown | htarget
    · exact .inl (Option.isSome_of_eq_some hown)
    · exact .inr ⟨new, htarget, hfound⟩
  · refine ⟨_, cx.picks_or m, ?_⟩
    rw [← findSome?_or hfirst]
    exact hsearch.finds _

end Context

/-! ### A class that extends a mixin class -/

namespace Mixin

def inherited : Method := ⟨.ofBinary "C", "a", "()I", false, false, []⟩

/-- The class `M` with the target `A`, and the class `C` that extends it and has a method `a`. -/
def extending : SourceFile where
  name := "M.java"
  language := .java
  text := "@Mixin(A.class)class M\x7b;\x7dclass C extends M\x7bint a();\x7d"
  tree := .node .sourceFile [classWith (targeting "A") "M" (.token .semicolon ";"),
    .node .classDecl [.token .classKw "class", .token .whitespace " ", .token .ident "C",
      .token .whitespace " ", .token .extendsKw "extends", .token .whitespace " ", .token .ident "M",
      .token .lBrace "\x7b",
      .node .methodDecl [.token .ident "int", .token .whitespace " ", .token .ident "a",
        .token .lParen "(", .token .rParen ")", .token .semicolon ";"],
      .token .rBrace "\x7d"]]
  symbols := .ofList [((.classDecl, .ofWidth 0 25), .classType (.ofBinary "M")),
    ((.reference, .ofWidth 7 1), .classType (.ofBinary "A")),
    ((.classDecl, .ofWidth 25 27), .classType (.ofBinary "C")),
    ((.methodDecl, .ofWidth 43 8), .method inherited)]
  types := .empty
  scope := ⟨.ofList [⟨.ofBinary "M", none, [], [], []⟩, ⟨.ofBinary "C", some "M", [], [], []⟩], .empty⟩

def targetRun : Run where
  renames := Renames.empty.declare "A" "A" fun c => c.addMethod ⟨"a", some "()I"⟩ "b"
  templates := []
  settings := {}

def ownRun : Run where
  renames := targetRun.renames.declare "M" "M" fun c => c.addMethod ⟨"a", some "()I"⟩ "c"
  templates := []
  settings := {}

def inheritedSite : Site := extending.sites.get ⟨9, by decide +kernel⟩

theorem ancestry_extending : extending.scope.ancestry inherited.owner.binary = ["C", "M"] := by
  have hmentioned : extending.scope.mentioned = ["M"] := by decide +kernel
  have hC : extending.scope.supertypes "C" = ["M"] := by decide +kernel
  have hM : extending.scope.supertypes "M" = [] := by decide +kernel
  have howner : inherited.owner.binary = "C" := rfl
  simp [howner, Scope.ancestry, Scope.reach_cons, Scope.reach_nil, Scope.without, hmentioned, hC, hM]

theorem offersFirst_extending {cx : Context} (hfile : cx.file = extending)
    (hnone : cx.given? inherited "C" = none ∧ cx.targetGiven? inherited "C" = none)
    (hsome : ∃ new, cx.Offers inherited "M" new) (c : String) :
    cx.OffersFirst inherited c ↔ c = "M" := by
  have hlist : cx.file.scope.ancestry inherited.owner.binary = ["C", "M"] := by
    rw [hfile, ancestry_extending]
  have hC : ∀ new, ¬ cx.Offers inherited "C" new := by
    rintro new (h | h)
    · exact absurd (hnone.1.symm.trans h) (by simp)
    · exact absurd (hnone.2.symm.trans h) (by simp)
  constructor
  · rintro ⟨front, back, hfront, ⟨new, hnew⟩, -⟩
    have hc : c ∈ ["C", "M"] := by
      rw [← hlist, hfront]
      exact List.mem_append_right _ List.mem_cons_self
    rcases List.mem_pair.1 hc with rfl | rfl
    · exact absurd hnew (hC new)
    · rfl
  · rintro rfl
    refine ⟨["C"], [], hlist, hsome, fun b hb => ?_⟩
    rw [List.mem_singleton.1 hb]
    exact hC

theorem methodName?_extending {cx : Context} (hfile : cx.file = extending)
    (hmixin : cx.mixins.get? inherited.owner.qualified = none)
    (hnone : cx.given? inherited "C" = none) :
    cx.methodName? inherited = cx.given? inherited "M" := by
  rw [Context.methodName?, hmixin]
  dsimp only
  rw [Context.inheritedName?, hfile, ancestry_extending]
  show (["C", "M"].findSome? (cx.given? inherited)) = _
  rw [List.findSome?_cons, hnone]
  exact List.findSome?_singleton

theorem report_extending {run : Run} (hrun : run = targetRun ∨ run = ownRun) :
    run.report extending = (Context.renameTo ((run.beforeWalk extending).1.methodName? inherited)
      inheritedSite inherited (.ofText extending.text)).result := by
  have hkotlin : (run.beforeWalk extending).1.file.isKotlin = false := by
    rw [Run.file_beforeWalk]
    rfl
  have hmeans : (run.beforeWalk extending).1.Means inheritedSite inherited := by
    rw [Context.Means, Run.file_beforeWalk]
    exact .inl rfl
  have hvisit := Context.visitJava_of_means hkotlin hmeans (.inl rfl) (.ofText extending.text)
  rw [if_pos ⟨rfl, rfl⟩] at hvisit
  have htemplates : run.templates = [] := by
    rcases hrun with rfl | rfl
    · rfl
    · rfl
  rw [Run.report_of_no_templates htemplates, Run.draft_eq rfl, ← hvisit]
  rcases hrun with rfl | rfl
  · rfl
  · rfl

/-- The name of the mixin class itself is found. -/
theorem own_offered :
    let cx := (ownRun.beforeWalk extending).1
    cx.mixins.get? inherited.owner.qualified = none ∧
    (cx.mixins.get? (cx.className "M").qualified).isSome = true ∧
    cx.Offered inherited (some "c") ∧
    ownRun.report extending =
      .ok ⟨"@Mixin(A.class)class M\x7b;\x7dclass C extends M\x7bint c();\x7d", [], []⟩ := by
  intro cx
  have hfile : cx.file = extending := Run.file_beforeWalk _ _
  have hmixin : cx.mixins.get? inherited.owner.qualified = none := by decide +kernel
  have hnone : cx.given? inherited "C" = none ∧ cx.targetGiven? inherited "C" = none := by
    decide +kernel
  have hown : cx.given? inherited "M" = some "c" := by decide +kernel
  have hname : cx.methodName? inherited = some "c" := by
    rw [methodName?_extending hfile hmixin hnone.1, hown]
  refine ⟨hmixin, by decide +kernel, ?_, ?_⟩
  · rw [← hname]
    refine (Context.offered_iff hmixin).2.2.2 fun c hc => .inl ?_
    rw [(offersFirst_extending hfile hnone ⟨"c", .inl hown⟩ c).1 hc, hown]
    rfl
  · rw [report_extending (.inr rfl), hname]
    decide +kernel

/-- **The name from the target is passed over.**  Of the supertypes of `C` only `M` offers a name,
the one that its target has for the method, and the method keeps the old one. -/
theorem target_passed_over :
    targetRun.report extending = .ok ⟨extending.text, [], []⟩ ∧
    ¬ ∀ (cx : Context) (m : Method), cx.mixins.get? m.owner.qualified = none →
      (∃ c, cx.file.scope.Reaches m.owner.binary c ∧
        (cx.mixins.get? (cx.className c).qualified).isSome = true) →
      cx.Offered m (cx.methodName? m) := by
  have hfile : (targetRun.beforeWalk extending).1.file = extending := Run.file_beforeWalk _ _
  have hmixin : (targetRun.beforeWalk extending).1.mixins.get? inherited.owner.qualified = none := by
    decide +kernel
  have hnone : (targetRun.beforeWalk extending).1.given? inherited "C" = none ∧
      (targetRun.beforeWalk extending).1.targetGiven? inherited "C" = none := by
    decide +kernel
  have hM : (targetRun.beforeWalk extending).1.given? inherited "M" = none := by decide +kernel
  have htarget : (targetRun.beforeWalk extending).1.targetGiven? inherited "M" = some "b" := by
    decide +kernel
  have hname : (targetRun.beforeWalk extending).1.methodName? inherited = none := by
    rw [methodName?_extending hfile hmixin hnone.1, hM]
  have hfirst : (targetRun.beforeWalk extending).1.OffersFirst inherited "M" :=
    (offersFirst_extending hfile hnone ⟨"b", .inr htarget⟩ "M").2 rfl
  constructor
  · rw [report_extending (.inl rfl), hname]
    decide +kernel
  · intro h
    have hreaches :
        (targetRun.beforeWalk extending).1.file.scope.Reaches inherited.owner.binary "M" := by
      rw [hfile, ← Scope.mem_ancestry_iff, ancestry_extending]
      exact List.mem_cons_of_mem _ List.mem_cons_self
    obtain ⟨gives, hpicks, hfinds⟩ := h _ inherited hmixin ⟨"M", hreaches, by decide +kernel⟩
    obtain ⟨new, hnew⟩ := hpicks.exists_of_first hfirst
    have hfound := hfinds.unique ((Scope.search_ancestry _ _).finds gives)
    rw [hfirst.findSome? hnew hpicks.offers, hname] at hfound
    exact absurd hfound (by simp)

end Mixin

end SourceRename
