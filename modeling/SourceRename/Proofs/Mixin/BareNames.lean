import SourceRename.Proofs.Rename.Passes
import SourceRename.Proofs.Table
import SourceRename.Symbol.Ancestry

/-!
# Bare names in injectors

An injector names a method of the target by name and perhaps descriptor, and is given the new name.
The descriptor is written if it was, and also if the table of the target has the new name twice.  So
where the new name stands alone, one entry at most has it, and the entry is for one old name
(`ClassRename.name_eq_of_countRenamedTo_le_one`):

    a()V ↦ b        "a" becomes "b"
    a()V ↦ b        "a" becomes "b()V"
    c()V ↦ b

An old name without descriptor is that of one method, or else a problem is reported.  Together these
say that the table gives the new name to no second method (`Context.injector_bare_iff`).  What the
table says nothing of is not looked at: a method that has had the name all along still has it
(`Mixin.unlisted_not_counted`). -/

namespace SourceRename

theorem eq_of_countP_le_one {α : Type} {p : α → Bool} {xs : List α} (h : xs.countP p ≤ 1) {a b : α}
    (ha : a ∈ xs) (hpa : p a = true) (hb : b ∈ xs) (hpb : p b = true) : a = b := by
  have ha : a ∈ xs.filter p := List.mem_filter.2 ⟨ha, hpa⟩
  have hb : b ∈ xs.filter p := List.mem_filter.2 ⟨hb, hpb⟩
  rw [List.countP_eq_length_filter] at h
  match hfound : xs.filter p with
  | [] => exact absurd (hfound ▸ ha) List.not_mem_nil
  | [x] =>
    rw [hfound, List.mem_singleton] at ha hb
    rw [ha, hb]
  | _ :: _ :: _ =>
    rw [hfound, List.length_cons, List.length_cons] at h
    omega

/-! ### Entries with one new name -/

namespace ClassRename

variable {r : ClassRename} {name descriptor name' descriptor' new : String}

theorem exists_entry_of_method? (h : r.method? name descriptor = some new) :
    ∃ key, (key, new) ∈ r.methods.entries ∧ key.name = name := by
  rw [method?, Option.or_eq_some_iff] at h
  rcases h with h | ⟨-, h⟩
  · exact ⟨_, Table.get?_eq_some_iff.1 h, rfl⟩
  · exact ⟨_, Table.get?_eq_some_iff.1 h, rfl⟩

/-- **One entry is for one old name**, with a descriptor or for all methods of the name. -/
theorem name_eq_of_countRenamedTo_le_one (hcount : r.countRenamedTo new ≤ 1)
    (h : r.method? name descriptor = some new) (h' : r.method? name' descriptor' = some new) :
    name = name' := by
  obtain ⟨key, hkey, rfl⟩ := exists_entry_of_method? h
  obtain ⟨key', hkey', rfl⟩ := exists_entry_of_method? h'
  rw [countRenamedTo, Table.values, List.countP_map] at hcount
  have hsame := eq_of_countP_le_one hcount hkey (beq_self_eq_true new) hkey' (beq_self_eq_true new)
  rw [(Prod.mk.inj hsame).1]

end ClassRename

theorem Renames.mem_renameDescriptor {descriptor : String} (r : Renames)
    (h : '(' ∈ descriptor.toList) : '(' ∈ (r.renameDescriptor descriptor).toList := by
  rw [renameDescriptor]
  split
  · rw [String.toList_ofList]
    exact List.mem_append_left _ List.mem_cons_self
  · exact h

namespace Draft

theorem diagnostics_replaceFree (d : Draft) (span : Span) (text : String) :
    (d.replaceFree span text).diagnostics = d.diagnostics := by
  rw [replaceFree]
  split
  · rw [replace]
    split
    · rfl
    · rfl
  · rfl

theorem diagnostics_replaceLiteral (d : Draft) (span : Span) (old new : String) :
    (d.replaceLiteral span old new).diagnostics = d.diagnostics := by
  rw [replaceLiteral]
  split
  · rfl
  · exact d.diagnostics_replaceFree span _

end Draft

namespace Context

variable {cx : Context} {r : ClassRename} {decl : ClassDecl} {m : Method} {text : String}

/-! ### What an injector names -/

def injected? (decl : ClassDecl) (text : String) : Option Method :=
  (candidates decl (splitDescriptor text).1 (splitDescriptor text).2).head?

/-- The text that names this method under its new name. -/
def injectedName (cx : Context) (r : ClassRename) (decl : ClassDecl) (text : String) : String :=
  cx.injectedText r (splitDescriptor text).1 (splitDescriptor text).2 (injected? decl text)

/-- The name of a method when all methods have been renamed. -/
def finalName (cx : Context) (m : Method) : String := (cx.methodName? m).getD m.name

theorem mem_of_splitDescriptor {descriptor : String}
    (h : (splitDescriptor text).2 = some descriptor) : '(' ∈ descriptor.toList := by
  rw [splitDescriptor] at h
  dsimp only at h
  split at h
  · exact absurd h (by simp)
  · next hrest =>
    obtain rfl := Option.some.inj h
    rw [String.toList_ofList]
    cases hcs : text.toList.dropWhile (· != '(') with
    | nil => exact absurd (by rw [hcs]; rfl) hrest
    | cons c cs =>
      -- what is left begins with the parenthesis
      have hc := List.head?_dropWhile_not (· != '(') text.toList
      rw [hcs] at hc
      have hc : c = '(' := by simpa using hc
      rw [hc]
      exact List.mem_cons_self

theorem mem_methodsNamed_of_injected? (h : injected? decl text = some m) :
    m ∈ decl.methodsNamed (splitDescriptor text).1 := by
  have hmem := List.mem_of_head? h
  rw [candidates.eq_def] at hmem
  split at hmem
  · exact (List.mem_filter.1 hmem).1
  · exact hmem

/-- **A name that stands alone** is the new name of the method.  It was alone before, and the table
of the target has it once at most. -/
theorem injectedName_of_bare (hnamed : injected? decl text = some m)
    (hdescriptor : '(' ∈ m.descriptor.toList) (hbare : '(' ∉ (cx.injectedName r decl text).toList) :
    (splitDescriptor text).2 = none ∧ cx.injectedName r decl text = cx.finalName m ∧
      r.countRenamedTo (cx.finalName m) ≤ 1 := by
  have hname : m.name = (splitDescriptor text).1 :=
    beq_iff_eq.1 (List.mem_filter.1 (mem_methodsNamed_of_injected? hnamed)).2
  have hfinal : ((some m).bind cx.methodName?).getD (splitDescriptor text).1 = cx.finalName m := by
    rw [finalName, hname]
    rfl
  rw [injectedName, hnamed, injectedText, hfinal] at hbare ⊢
  -- a descriptor that is written would be there
  have habsent {descriptor : String} (hin : '(' ∈ descriptor.toList) :
      '(' ∈ (cx.finalName m ++ cx.renames.renameDescriptor descriptor).toList := by
    rw [String.toList_append]
    exact List.mem_append_right _ (cx.renames.mem_renameDescriptor hin)
  by_cases hcount : r.countRenamedTo (cx.finalName m) > 1
  · rw [if_pos hcount] at hbare
    exact absurd (habsent hdescriptor) hbare
  · rw [if_neg hcount] at hbare ⊢
    cases hsplit : (splitDescriptor text).2 with
    | none => exact ⟨rfl, rfl, Nat.le_of_not_gt hcount⟩
    | some descriptor =>
      rw [hsplit] at hbare
      exact absurd (habsent (mem_of_splitDescriptor hsplit)) hbare

/-! ### What is done with it -/

/-- The text is changed, and a name without descriptor that several methods have is reported. -/
theorem renameInjected_eq {value literal attr : Site} (d : Draft)
    (hliteral : cx.injectedLiteral? value = some literal) (htext : literal.stringValue? = some text) :
    cx.renameInjected r decl attr d value =
      (if (splitDescriptor text).2 = none ∧ 1 < (decl.methodsNamed (splitDescriptor text).1).length then
          d.report attr.span.start (.ambiguousTarget (splitDescriptor text).1
            ((decl.methodsNamed (splitDescriptor text).1).map fun m =>
              (splitDescriptor text).1 ++ m.descriptor))
        else d).replaceLiteral literal.span text (cx.injectedName r decl text) := by
  rw [renameInjected, hliteral]
  dsimp only
  rw [htext]
  show Draft.replaceLiteral (if _ then _ else _) literal.span text (cx.injectedName r decl text) = _
  congr 1
  by_cases hdescriptor : (splitDescriptor text).2 = none
  · rw [hdescriptor]
    rfl
  · rw [if_neg fun h => hdescriptor h.1, if_neg fun h => hdescriptor h.1]

/-- Where no problem is reported, a name without descriptor is that of one method at most. -/
theorem length_methodsNamed_le_one {value literal attr : Site} {d : Draft}
    (hliteral : cx.injectedLiteral? value = some literal) (htext : literal.stringValue? = some text)
    (hunreported : (cx.renameInjected r decl attr d value).diagnostics = d.diagnostics)
    (hsplit : (splitDescriptor text).2 = none) :
    (decl.methodsNamed (splitDescriptor text).1).length ≤ 1 := by
  by_contra hmany
  rw [renameInjected_eq d hliteral htext, if_pos ⟨hsplit, Nat.lt_of_not_le hmany⟩,
    Draft.diagnostics_replaceLiteral] at hunreported
  have hlength := congrArg List.length hunreported
  rw [Draft.report, List.length_append, List.length_singleton] at hlength
  omega

/-! ### How many methods have the name -/

section

variable {new : String} (hone : (decl.methodsNamed m.name).length ≤ 1)
  (hcount : r.countRenamedTo new ≤ 1) (hm : m ∈ decl.methods)
  (hlisted : r.method? m.name m.descriptor = some new)
include hone hcount hm hlisted

theorem eq_of_listed {x : Method} (hx : x ∈ decl.methods)
    (hxlisted : r.method? x.name x.descriptor = some new) : x = m := by
  have hname : x.name = m.name := r.name_eq_of_countRenamedTo_le_one hcount hxlisted hlisted
  rw [ClassDecl.methodsNamed, ← List.countP_eq_length_filter] at hone
  exact eq_of_countP_le_one hone hx (beq_iff_eq.2 hname) hm (beq_self_eq_true m.name)

theorem countP_listed :
    decl.methods.countP (fun x => r.method? x.name x.descriptor == some new) = 1 := by
  apply Nat.le_antisymm
  · have hsame : ∀ x ∈ decl.methods, (r.method? x.name x.descriptor == some new) = true →
        (x.name == m.name) = true := by
      intro x hx hxlisted
      rw [eq_of_listed hone hcount hm hlisted hx (beq_iff_eq.1 hxlisted)]
      exact beq_self_eq_true m.name
    rw [ClassDecl.methodsNamed, ← List.countP_eq_length_filter] at hone
    exact Nat.le_trans (List.countP_mono_left hsame) hone
  · exact List.countP_pos_iff.2 ⟨m, hm, beq_iff_eq.2 hlisted⟩

/-- One method of the class has the name in the end, if all that have it have it from the table. -/
theorem countP_finalName_iff (hfinal : cx.finalName m = new) :
    decl.methods.countP (fun x => cx.finalName x == new) = 1 ↔
      ∀ x ∈ decl.methods, cx.finalName x = new → r.method? x.name x.descriptor = some new := by
  constructor
  · intro h x hx hxfinal
    have heq : x = m := eq_of_countP_le_one (Nat.le_of_eq h) hx (beq_iff_eq.2 hxfinal) hm
      (beq_iff_eq.2 hfinal)
    rw [heq]
    exact hlisted
  · intro hall
    rw [← countP_listed hone hcount hm hlisted]
    apply List.countP_congr
    intro x hx
    rw [beq_iff_eq, beq_iff_eq]
    constructor
    · exact hall x hx
    · intro hxlisted
      rw [eq_of_listed hone hcount hm hlisted hx hxlisted]
      exact hfinal

end

/-- **Bare names in injectors.**  A value of an injector names a method of the target, and no
problem is reported for it.  Then the pass puts the new name in the place of the old one, and does
with it nothing else.  If that is a name without descriptor, it is the new name of the method; and
if the method has it from the table of the target, then the table gives it to no other method of the
target.  So it is the name of this method alone, when all methods have been renamed, if and only if
all methods that have it then have it from the table. -/
theorem injector_bare_iff (d₀ : Draft) {before behind : List MixinStep} {cx' : Context}
    {mixin method use attr value literal : Site} {target : MixinTarget}
    (hsteps : cx.mixinSteps =
      before ++ .member cx' ⟨mixin, target, .inject method use attr value⟩ :: behind)
    (hdecl : target.decl? = some decl) (hliteral : cx'.injectedLiteral? value = some literal)
    (htext : literal.stringValue? = some text) (hnamed : injected? decl text = some m)
    (hdescriptor : '(' ∈ m.descriptor.toList)
    (hunreported : (cx'.renameInjected target.renames decl attr (before.foldl MixinStep.run d₀)
      value).diagnostics = (before.foldl MixinStep.run d₀).diagnostics) :
    let new := cx'.injectedName target.renames decl text
    (cx.renameMixins d₀).2 = behind.foldl MixinStep.run
        ((before.foldl MixinStep.run d₀).replaceLiteral literal.span text new) ∧
      ('(' ∉ new.toList → new = cx'.finalName m ∧
        (target.renames.method? m.name m.descriptor = some new →
          decl.methods.countP
            (fun x => target.renames.method? x.name x.descriptor == some new) = 1 ∧
          (decl.methods.countP (fun x => cx'.finalName x == new) = 1 ↔
            ∀ x ∈ decl.methods, cx'.finalName x = new →
              target.renames.method? x.name x.descriptor = some new))) := by
  intro new
  have hmnamed := mem_methodsNamed_of_injected? hnamed
  obtain ⟨hm, hname⟩ := List.mem_filter.1 hmnamed
  have hone := length_methodsNamed_le_one hliteral htext hunreported
  constructor
  · have hunambiguous : ¬ ((splitDescriptor text).2 = none ∧
        1 < (decl.methodsNamed (splitDescriptor text).1).length) := by
      rintro ⟨hsplit, hmany⟩
      exact absurd (hone hsplit) (Nat.not_le_of_lt hmany)
    rw [renameMixins_eq, hsteps, List.foldl_append, List.foldl_cons, MixinStep.run, MemberTask.run,
      hdecl]
    dsimp only
    rw [renameInjected_eq _ hliteral htext, if_neg hunambiguous]
  · intro hbare
    obtain ⟨hsplit, hnew, hcount⟩ := injectedName_of_bare hnamed hdescriptor hbare
    have hone := hone hsplit
    rw [← beq_iff_eq.1 hname] at hone
    rw [← hnew] at hcount
    refine ⟨hnew, fun hlisted => ⟨countP_listed hone hcount hm hlisted, ?_⟩⟩
    exact countP_finalName_iff hone hcount hm hlisted hnew.symm

end Context

/-! ### A class with two methods -/

namespace Mixin

def plain (name descriptor : String) : Method := ⟨.ofBinary "A", name, descriptor, false, false, []⟩

def twoMethods : ClassDecl := ⟨.ofBinary "A", none, [], [plain "a" "()V", plain "b" "(I)V"], []⟩

/-- The method `@Inject(method="a")void f(){}`. -/
def injectorMethod : Tree :=
  .node .methodDecl [
    .node .modifierList [.node .annotationUse [.token .at "@", .token .ident "Inject",
      .node .annotationArgs [.token .lParen "(",
        .node .annotationAttr [.token .ident "method", .token .eq "=",
          .node .literal [.token .string "\"a\""]], .token .rParen ")"]]],
    .token .ident "void", .token .whitespace " ", .token .ident "f", .token .lParen "(",
    .token .rParen ")", .token .lBrace "\x7b", .token .rBrace "\x7d"]

def injecting : SourceFile where
  name := "M.java"
  language := .java
  text := "@Mixin(A.class)class M\x7b@Inject(method=\"a\")void f()\x7b\x7d\x7d"
  tree := .node .sourceFile [classWith (targeting "A") "M" injectorMethod]
  symbols := .ofList [((.classDecl, .ofWidth 0 53), .classType (.ofBinary "M")),
    ((.reference, .ofWidth 7 1), .classType (.ofBinary "A"))]
  types := .empty
  scope := ⟨.empty, .ofList [twoMethods]⟩

/-- A run that gives the first method the name of the second one. -/
def loneRun : Run where
  renames := Renames.empty.declare "A" "A" fun c => c.addMethod ⟨"a", some "()V"⟩ "b"
  templates := []
  settings := {}

def shiftedRun : Run where
  renames := loneRun.renames.declare "A" "A" fun c => c.addMethod ⟨"b", some "(I)V"⟩ "c"
  templates := []
  settings := {}

def injected : Report :=
  ⟨"@Mixin(A.class)class M\x7b@Inject(method=\"b\")void f()\x7b\x7d\x7d", [], []⟩

theorem steps_injecting {run : Run} (hrun : run = loneRun ∨ run = shiftedRun) :
    let cx := Context.ofFile injecting run.renames run.settings.forbidImplicit
    ∃ (cx' : Context) (mixin method use attr value literal : Site) (target : MixinTarget),
      cx.mixinSteps = [] ++ .member cx' ⟨mixin, target, .inject method use attr value⟩ :: [] ∧
      cx'.file = injecting ∧ cx'.renames = run.renames ∧ cx'.mixins.get? "A" = none ∧
      target.decl? = some twoMethods ∧ run.renames.find? "A" = some target.renames ∧
      cx'.injectedLiteral? value = some literal ∧ literal.stringValue? = some "a" ∧
      literal.span = .ofWidth 38 3 := by
  rcases hrun with rfl | rfl
  · exact ⟨_, _, _, _, _, _, _, _, rfl, rfl, rfl, rfl, rfl, rfl, rfl, rfl, rfl⟩
  · exact ⟨_, _, _, _, _, _, _, _, rfl, rfl, rfl, rfl, rfl, rfl, rfl, rfl, rfl⟩

theorem finalName_plain {cx : Context} (hfile : cx.file = injecting)
    (hmixins : cx.mixins.get? "A" = none) (name descriptor : String) :
    cx.finalName (plain name descriptor) =
      ((cx.renames.find? "A").bind (·.method? name descriptor)).getD name := by
  have hmentioned : injecting.scope.mentioned = [] := by decide
  have hsupertypes : injecting.scope.supertypes "A" = [] := by decide
  have hancestry : injecting.scope.ancestry "A" = ["A"] := by
    simp [Scope.ancestry, Scope.reach_cons, Scope.reach_nil, Scope.without, hmentioned, hsupertypes]
  have howner : (plain name descriptor).owner.qualified = "A" := by
    show (ClassName.ofBinary "A").qualified = "A"
    decide
  rw [Context.finalName, Context.methodName?, howner, hmixins]
  dsimp only
  rw [Context.inheritedName?, hfile, show (plain name descriptor).owner.binary = "A" from rfl,
    hancestry, List.findSome?_singleton]
  rfl

theorem injectedName_injecting {run : Run} (hrun : run = loneRun ∨ run = shiftedRun) {cx : Context}
    (hfile : cx.file = injecting) (hrenames : cx.renames = run.renames)
    (hmixins : cx.mixins.get? "A" = none) {r : ClassRename} (hr : run.renames.find? "A" = some r) :
    cx.injectedName r twoMethods "a" = "b" := by
  have hnew : ((run.renames.find? "A").bind (·.method? "a" "()V")).getD "a" = "b" ∧
      ((run.renames.find? "A").map (·.countRenamedTo "b")).getD 0 = 1 := by
    rcases hrun with rfl | rfl
    · decide +kernel
    · decide +kernel
  have hfinal := finalName_plain hfile hmixins "a" "()V"
  rw [hrenames, hnew.1] at hfinal
  have hcount : r.countRenamedTo "b" = 1 := by
    rw [← hnew.2, hr]
    rfl
  have hinjected : Context.injected? twoMethods "a" = some (plain "a" "()V") := by decide +kernel
  have hsplit : Context.splitDescriptor "a" = ("a", none) := by decide +kernel
  have hname : ((some (plain "a" "()V")).bind cx.methodName?).getD "a" = "b" := hfinal
  rw [Context.injectedName, hinjected, hsplit, Context.injectedText, hname, hcount]
  rfl

theorem report_injecting {run : Run} (hrun : run = loneRun ∨ run = shiftedRun)
    (hpass : ((Context.ofFile injecting run.renames run.settings.forbidImplicit).renameMixins
        (.ofText injecting.text)).2 =
      (Draft.ofText injecting.text).replaceLiteral (.ofWidth 38 3) "a" "b") :
    run.report injecting = .ok injected := by
  have htemplates : run.templates = [] := by
    rcases hrun with rfl | rfl
    · rfl
    · rfl
  rw [Run.report_of_no_templates htemplates, Run.draft_eq rfl, Run.beforeWalk, htemplates,
    Template.offerAll_nil, hpass, Context.fst_renameMixins]
  -- the references that are left are not those of methods
  rcases hrun with rfl | rfl
  · decide +kernel
  · decide +kernel

theorem unreported_injecting {cx : Context} {value literal : Site} (r : ClassRename) (attr : Site)
    (d : Draft) (hliteral : cx.injectedLiteral? value = some literal)
    (htext : literal.stringValue? = some "a") :
    cx.renameInjected r twoMethods attr d value =
      d.replaceLiteral literal.span "a" (cx.injectedName r twoMethods "a") := by
  rw [Context.renameInjected_eq d hliteral htext, if_neg (by decide +kernel)]

/-- The new name is that of one method if the other one has a new name, too. -/
theorem listed_told_apart :
    ∃ (cx' : Context) (mixin method use attr value literal : Site) (target : MixinTarget),
      (Context.ofFile injecting shiftedRun.renames shiftedRun.settings.forbidImplicit).mixinSteps =
        [] ++ .member cx' ⟨mixin, target, .inject method use attr value⟩ :: [] ∧
      target.decl? = some twoMethods ∧ cx'.injectedLiteral? value = some literal ∧
      literal.stringValue? = some "a" ∧
      Context.injected? twoMethods "a" = some (plain "a" "()V") ∧
      target.renames.method? "a" "()V" = some "b" ∧
      cx'.injectedName target.renames twoMethods "a" = "b" ∧
      twoMethods.methods.countP (fun x => cx'.finalName x == "b") = 1 ∧
      shiftedRun.report injecting = .ok injected := by
  have hrun : shiftedRun = loneRun ∨ shiftedRun = shiftedRun := .inr rfl
  obtain ⟨cx', mixin, method, use, attr, value, literal, target, hsteps, hfile, hrenames, hmixins, hdecl,
    htable, hliteral, htext, hspan⟩ := steps_injecting hrun
  have hnew := injectedName_injecting hrun hfile hrenames hmixins htable
  have hinjected : Context.injected? twoMethods "a" = some (plain "a" "()V") := by decide +kernel
  have hdraft := unreported_injecting target.renames attr (.ofText injecting.text) hliteral htext
  have hunreported : (cx'.renameInjected target.renames twoMethods attr (.ofText injecting.text)
      value).diagnostics = (Draft.ofText injecting.text).diagnostics := by
    rw [hdraft, Draft.diagnostics_replaceLiteral]
  obtain ⟨hpass, hbare⟩ := Context.injector_bare_iff (.ofText injecting.text) hsteps hdecl hliteral htext
    hinjected (by decide) hunreported
  rw [hnew] at hpass hbare
  have hlisted : target.renames.method? "a" "()V" = some "b" := by
    have hfound : (shiftedRun.renames.find? "A").bind (·.method? "a" "()V") = some "b" := by
      decide +kernel
    rwa [htable] at hfound
  refine ⟨cx', mixin, method, use, attr, value, literal, target, hsteps, hdecl, hliteral, htext,
    hinjected, hlisted, hnew, ?_, ?_⟩
  · apply ((hbare (by decide)).2 hlisted).2.2
    intro x hx hxfinal
    rcases List.mem_pair.1 hx with rfl | rfl
    · exact hlisted
    · -- the other method has the name `c`
      rw [finalName_plain hfile hmixins, hrenames] at hxfinal
      exact absurd hxfinal (by decide +kernel)
  · apply report_injecting hrun
    rw [hspan] at hpass
    exact hpass

/-- **A method that keeps its name is not counted.**  The first method gets the name of the second
one, the injector names it by this name alone, and nothing is reported. -/
theorem unlisted_not_counted :
    loneRun.report injecting = .ok injected ∧
    ¬ ∀ (cx : Context) (d₀ : Draft) (before behind : List MixinStep) (cx' : Context)
        (mixin method use attr value literal : Site) (target : MixinTarget) (decl : ClassDecl)
        (text : String) (m : Method),
      cx.mixinSteps = before ++ .member cx' ⟨mixin, target, .inject method use attr value⟩ :: behind →
      target.decl? = some decl → cx'.injectedLiteral? value = some literal →
      literal.stringValue? = some text → Context.injected? decl text = some m →
      '(' ∈ m.descriptor.toList →
      (cx'.renameInjected target.renames decl attr (before.foldl MixinStep.run d₀) value).diagnostics =
        (before.foldl MixinStep.run d₀).diagnostics →
      '(' ∉ (cx'.injectedName target.renames decl text).toList →
      decl.methods.countP
        (fun x => cx'.finalName x == cx'.injectedName target.renames decl text) = 1 := by
  have hrun : loneRun = loneRun ∨ loneRun = shiftedRun := .inl rfl
  obtain ⟨cx', mixin, method, use, attr, value, literal, target, hsteps, hfile, hrenames, hmixins, hdecl,
    htable, hliteral, htext, hspan⟩ := steps_injecting hrun
  have hnew := injectedName_injecting hrun hfile hrenames hmixins htable
  have hdraft := unreported_injecting target.renames attr (.ofText injecting.text) hliteral htext
  constructor
  · apply report_injecting hrun
    rw [Context.renameMixins_eq, hsteps, List.nil_append, List.foldl_cons, List.foldl_nil, MixinStep.run,
      MemberTask.run, hdecl]
    dsimp only
    rw [hdraft, hnew, hspan]
  · intro h
    have hone := h _ (.ofText injecting.text) [] [] cx' mixin method use attr value literal target
      twoMethods "a" (plain "a" "()V") hsteps hdecl hliteral htext (by decide +kernel) (by decide)
      (by rw [List.foldl_nil, hdraft, Draft.diagnostics_replaceLiteral]) (by rw [hnew]; decide)
    rw [hnew, twoMethods] at hone
    -- both methods have the name in the end
    have hfirst : cx'.finalName (plain "a" "()V") = "b" := by
      rw [finalName_plain hfile hmixins, hrenames]
      decide +kernel
    have hsecond : cx'.finalName (plain "b" "(I)V") = "b" := by
      rw [finalName_plain hfile hmixins, hrenames]
      decide +kernel
    rw [List.countP_cons, List.countP_cons, List.countP_nil, hfirst, hsecond] at hone
    exact absurd hone (by decide)

end Mixin

end SourceRename
