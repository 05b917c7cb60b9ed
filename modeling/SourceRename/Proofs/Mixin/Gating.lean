import SourceRename.Proofs.Mixin.Innermost
import SourceRename.Proofs.Rename.Inherited
import SourceRename.Proofs.Rename.Visit

/-!
# Methods of mixin classes

Of the methods of a mixin class only those are renamed that stand in for a method of its target.
The class is registered before any reference is renamed, so the order of declarations and uses plays
no role: the walk over the references sees all mixin classes of the file.

The classes are registered under their qualified names, and of two classes with one qualified name,
which local classes may have, the one that stands last in the file counts
(`Context.get?_registered`).  Its target names the methods of both:

    (last.renames.method? m.name m.descriptor).or found

where `found` is what the nearest class from the owner gives (`Context.stand_ins_gated`).
-/

namespace SourceRename

theorem exists_last {α : Type} {P : α → Prop} {xs : List α} (h : ∃ x ∈ xs, P x) :
    ∃ before x behind, xs = before ++ x :: behind ∧ P x ∧ ∀ y ∈ behind, ¬ P y := by
  induction xs with
  | nil =>
    obtain ⟨x, hx, -⟩ := h
    exact absurd hx List.not_mem_nil
  | cons a xs ih =>
    by_cases hmore : ∃ x ∈ xs, P x
    · obtain ⟨before, x, behind, rfl, hx, hbehind⟩ := ih hmore
      exact ⟨a :: before, x, behind, rfl, hx, hbehind⟩
    · obtain ⟨x, hx, hP⟩ := h
      rcases List.mem_cons.1 hx with rfl | hx
      · exact ⟨[], x, xs, rfl, hP, fun y hy hy' => hmore ⟨y, hy, hy'⟩⟩
      · exact absurd ⟨x, hx, hP⟩ hmore

namespace Context

variable {cx : Context} {b c n use : Site} {m : Method} {name : ClassName} {qualified : String}
  {target : MixinTarget} {before behind sites : List Site}

/-! ### The table of mixin classes -/

theorem get?_register (h : cx.registration? b = some (qualified, target)) :
    (cx.register b).mixins.get? qualified = some target.renames := by
  rw [register, h]
  exact (Table.get?_insert cx.mixins qualified qualified target.renames).trans (if_pos rfl)

theorem get?_register_of_other (h : ∀ t, cx.registration? b ≠ some (qualified, t)) :
    (cx.register b).mixins.get? qualified = cx.mixins.get? qualified := by
  rw [register]
  split
  · next other t hother =>
    have hne : qualified ≠ other := by
      rintro rfl
      exact h t hother
    exact (Table.get?_insert cx.mixins other qualified t.renames).trans (if_neg hne)
  · rfl

theorem registration?_foldl_register (cx : Context) (sites : List Site) (b : Site) :
    (sites.foldl register cx).registration? b = cx.registration? b := by
  rw [foldl_register_eq]
  rfl

theorem get?_foldl_register_of_other
    (h : ∀ s ∈ sites, ∀ t, cx.registration? s ≠ some (qualified, t)) :
    (sites.foldl register cx).mixins.get? qualified = cx.mixins.get? qualified := by
  induction sites generalizing cx with
  | nil => rfl
  | cons site sites ih =>
    obtain ⟨hsite, hsites⟩ := List.forall_mem_cons.1 h
    have hregistration := cx.registration?_foldl_register [site]
    rw [List.foldl_cons, ih fun s hs t => hregistration s ▸ hsites s hs t,
      get?_register_of_other hsite]

/-- **The last class of a name counts.** -/
theorem get?_registered (hclasses : cx.classSites = before ++ b :: behind)
    (hb : cx.registration? b = some (qualified, target))
    (hbehind : ∀ s ∈ behind, ∀ t, cx.registration? s ≠ some (qualified, t)) (d : Draft) :
    (cx.renameMixins d).1.mixins.get? qualified = some target.renames := by
  have hlast : ((before.foldl register cx).register b).mixins.get? qualified =
      some target.renames :=
    get?_register ((cx.registration?_foldl_register before b).trans hb)
  have hrest := cx.registration?_foldl_register (before ++ [b])
  rw [List.foldl_append] at hrest
  rw [fst_renameMixins, hclasses, List.foldl_append, List.foldl_cons,
    get?_foldl_register_of_other fun s hs t => hrest s ▸ hbehind s hs t, hlast]

/-! ### Nodes that stand for a method -/

def Means (cx : Context) (n : Site) (m : Method) : Prop :=
  cx.file.symbol? n = some (.method m) ∨ cx.file.symbol? n = some (.function m)

/-- Puts the new name of a method, if it has another one, in the place of the old one. -/
def renameTo (new? : Option String) (site : Site) (m : Method) (d : Draft) : Draft :=
  match new? with
  | none => d
  | some new => if new = m.name then d else replaceName site m.name new d

/-- What the walk over a Java file does at a declaration or a reference of a method. -/
theorem visitJava_of_means (hkotlin : cx.file.isKotlin = false) (hn : cx.Means n m)
    (hkind : n.kind = .methodDecl ∨ n.kind = .referenceExpr) (d : Draft) :
    cx.visitJava d n = if d.isFree n.span = true ∧ m.isConstructor = false then
      renameTo (cx.methodName? m) n m d else d := by
  have hname : isJavaName n.kind = true ∧ n.kind ≠ .nameRef := by
    rcases hkind with h | h <;> rw [h] <;> decide
  have hrename : cx.renameSite n d = cx.renameMethod n m d := by
    rcases hn with h | h <;> rw [renameSite, h] <;> rfl
  rw [visitJava, hname.1, Bool.true_and, hrename]
  by_cases hfree : d.isFree n.span = true
  · rw [if_pos hfree, renameMethod]
    cases hconstructor : m.isConstructor with
    | true => rw [if_pos rfl, if_neg hname.2, if_neg (by simp)]
    | false =>
      rw [if_neg Bool.false_ne_true, if_pos ⟨hfree, rfl⟩]
      cases hnew : cx.methodName? m with
      | none => rfl
      | some new =>
        have hgetter : cx.getterCall? n m new d = none := by
          rw [getterCall?, hkotlin]
          rfl
        simp only [renameTo, hgetter, ite_self]
  · rw [if_neg hfree, if_neg fun h => hfree h.1]

/-- **Shadow gating.**  In a Java file, let `c` be a mixin class that stands for a class and whose
target is found.  The references are renamed behind the mixin pass, with all mixin classes of the
file; of the classes registered under the qualified name of `c`, let `last` be the target of the
last one, which is the target of `c` where no other class has the name.

A declaration of or a reference to a method that `c` owns and that is not marked as standing in for
another one is left alone, whatever the renames are.  If the method is marked, it takes the name
that `last` gives it, and else what the search through `c` and its supertypes finds. -/
theorem stand_ins_gated {file : SourceFile} (hjava : file.language = .java) (renames : Renames)
    (forbidImplicit : Bool) (d : Draft) (hc : c ∈ file.sites) (hkind : c.kind = .classDecl)
    (huse : (ofFile file renames forbidImplicit).mixinUse? c = some use)
    (hname : file.symbol? c = some (.classType name))
    (htarget : (ofFile file renames forbidImplicit).target? use = some target) :
    let cx := ofFile file renames forbidImplicit
    let after := (cx.renameMixins d).1
    cx.renameAll d = after.renameJava (cx.renameMixins d).2 ∧
    ∃ before b behind last, cx.classSites = before ++ b :: behind ∧
      cx.registration? b = some (name.qualified, last) ∧
      (∀ s ∈ behind, ∀ t, cx.registration? s ≠ some (name.qualified, t)) ∧
      ((∀ s ∈ cx.classSites, ∀ t, cx.registration? s = some (name.qualified, t) → s = c) →
        last = target) ∧
      ∀ n ∈ file.sites, ∀ m, cx.Means n m → m.owner = name →
        n.kind = .methodDecl ∨ n.kind = .referenceExpr →
        (standsIn m = false → ∀ d, after.visitJava d n = d) ∧
        (standsIn m = true → ∃ found, file.scope.Finds (cx.given? m) [] [name.binary] found ∧
          ∀ d, after.visitJava d n = if d.isFree n.span = true ∧ m.isConstructor = false then
            renameTo ((last.renames.method? m.name m.descriptor).or found) n m d else d) := by
  intro cx after
  have hclass : c ∈ cx.classSites := List.mem_filter.2 ⟨hc, beq_iff_eq.2 hkind⟩
  have hregistered : cx.registration? c = some (name.qualified, target) := by
    have hdeclared : cx.declaredName? c = some name.qualified := by
      rw [declaredName?, show cx.file.symbol? c = some (.classType name) from hname]
    rw [registration?, show cx.mixinUse? c = some use from huse]
    dsimp only
    rw [hdeclared, show cx.target? use = some target from htarget]
  obtain ⟨before, b, behind, hclasses, ⟨last, hlast⟩, hbehind⟩ := exists_last
    (P := fun s => ∃ t, cx.registration? s = some (name.qualified, t)) ⟨c, hclass, target, hregistered⟩
  have hbehind : ∀ s ∈ behind, ∀ t, cx.registration? s ≠ some (name.qualified, t) :=
    fun s hs t ht => hbehind s hs ⟨t, ht⟩
  have hget : after.mixins.get? name.qualified = some last.renames :=
    get?_registered hclasses hlast hbehind d
  have hafter : after = { cx with mixins := after.mixins } := by
    have heq := foldl_register_eq cx cx.classSites
    rwa [← fst_renameMixins cx d] at heq
  refine ⟨?_, before, b, behind, last, hclasses, hlast, hbehind, ?_, ?_⟩
  · rw [renameAll, show cx.file.language = .java from hjava]
  · intro honly
    have hb : b ∈ cx.classSites := hclasses ▸ List.mem_append_right _ List.mem_cons_self
    obtain rfl := honly b hb last hlast
    exact congrArg Prod.snd (Option.some.inj (hlast.symm.trans hregistered))
  · rintro n - m hmeans rfl hkind
    have hkotlin : after.file.isKotlin = false := hafter ▸ SourceFile.isKotlin_of_java hjava
    have hmeans' : after.Means n m := hafter ▸ hmeans
    have hvisit := visitJava_of_means hkotlin hmeans' hkind
    have hinherited : after.inheritedName? m =
        (file.scope.ancestry m.owner.binary).findSome? (cx.given? m) := by
      rw [hafter]
      rfl
    rw [methodName?, hget] at hvisit
    dsimp only at hvisit
    constructor
    · intro hplain d
      rw [hvisit, hplain]
      exact ite_self d
    · intro hmarked
      refine ⟨_, (file.scope.search_ancestry m.owner.binary).finds (cx.given? m), fun d => ?_⟩
      rw [hvisit, if_pos hmarked, hinherited]

end Context

/-! ### Two local classes -/

namespace Mixin

def shadowed (owner : ClassName) : Method := ⟨owner, "a", "()I", false, false, [shadow]⟩

/-- The class `M` with two methods and in each of them a local class `L`, the first with the target
`A` and a shadowed method, the second with the target `B`. -/
def locals (first second : ClassName) : SourceFile where
  name := "M.java"
  language := .java
  text := "class M\x7bvoid f()\x7b@Mixin(A.class)class L\x7b@Shadow int a();\x7d\x7dvoid g()\x7b" ++
    "@Mixin(B.class)class L\x7b\x7d\x7d\x7d"
  tree := .node .sourceFile [.token .classKw "class", .token .whitespace " ", .token .ident "M",
    .token .lBrace "\x7b", .token .ident "void", .token .whitespace " ", .token .ident "f",
    .token .lParen "(", .token .rParen ")", .token .lBrace "\x7b",
    classWith (targeting "A") "L" (.node .methodDecl [.token .at "@", .token .ident "Shadow",
      .token .whitespace " ", .token .ident "int", .token .whitespace " ", .token .ident "a",
      .token .lParen "(", .token .rParen ")", .token .semicolon ";"]),
    .token .rBrace "\x7d", .token .ident "void", .token .whitespace " ", .token .ident "g",
    .token .lParen "(", .token .rParen ")", .token .lBrace "\x7b",
    .node .classDecl [targeting "B", .token .classKw "class", .token .whitespace " ",
      .token .ident "L", .token .lBrace "\x7b", .token .rBrace "\x7d"],
    .token .rBrace "\x7d", .token .rBrace "\x7d"]
  symbols := .ofList [((.classDecl, .ofWidth 17 40), .classType first),
    ((.reference, .ofWidth 24 1), .classType (.ofBinary "A")),
    ((.methodDecl, .ofWidth 40 16), .method (shadowed first)),
    ((.classDecl, .ofWidth 67 24), .classType second),
    ((.reference, .ofWidth 74 1), .classType (.ofBinary "B"))]
  types := .empty
  scope := ⟨.empty, .empty⟩

def localsRun : Run where
  renames := (Renames.empty.declare "A" "A" fun c => c.addMethod ⟨"a", some "()I"⟩ "b").declare
    "B" "B" fun c => c.addMethod ⟨"a", some "()I"⟩ "c"
  templates := []
  settings := {}

def apart : SourceFile := locals (.ofBinary "M$1L") (.ofBinary "M$2L")

/-- Local classes with one qualified name. -/
def twins : SourceFile := locals ⟨"M$1L", "M.L"⟩ ⟨"M$2L", "M.L"⟩

theorem first_local (first second : ClassName) :
    let cx := Context.ofFile (locals first second) localsRun.renames localsRun.settings.forbidImplicit
    ∃ c use target, c ∈ (locals first second).sites ∧ c.kind = .classDecl ∧
      c.declaration = ⟨.classDecl, .ofWidth 17 40⟩ ∧ cx.mixinUse? c = some use ∧
      (locals first second).symbol? c = some (.classType first) ∧ cx.target? use = some target ∧
      target.renames.method? "a" "()I" = some "b" := by
  intro cx
  let c : Site := (locals first second).sites.get ⟨1, Nat.lt_of_sub_eq_succ rfl⟩
  have hfound : ((cx.mixinUse? c).bind cx.target?).map (·.renames.method? "a" "()I") =
      some (some "b") := rfl
  obtain ⟨target, htarget, hnew⟩ := Option.map_eq_some_iff.1 hfound
  obtain ⟨use, huse, htarget⟩ := Option.bind_eq_some_iff.1 htarget
  exact ⟨c, use, target, List.get_mem .., rfl, rfl, huse, rfl, htarget, hnew⟩

/-- The method of the first class takes the name from the target of its own class. -/
theorem apart_gated :
    let cx := Context.ofFile apart localsRun.renames localsRun.settings.forbidImplicit
    let after := (cx.renameMixins (.ofText apart.text)).1
    (∃ n ∈ apart.sites, cx.Means n (shadowed (.ofBinary "M$1L")) ∧
      ∀ d : Draft, d.isFree n.span = true →
        after.visitJava d n = Context.replaceName n "a" "b" d) ∧
    localsRun.report apart = .ok ⟨"class M\x7bvoid f()\x7b@Mixin(A.class)class L\x7b@Shadow int b();" ++
      "\x7d\x7dvoid g()\x7b@Mixin(B.class)class L\x7b\x7d\x7d\x7d", [], []⟩ := by
  intro cx after
  obtain ⟨c, use, target, hc, hkind, hspan, huse, hsymbol, htarget, hnew⟩ :=
    first_local (.ofBinary "M$1L") (.ofBinary "M$2L")
  have hgated := Context.stand_ins_gated rfl localsRun.renames localsRun.settings.forbidImplicit
    (.ofText apart.text) hc hkind huse hsymbol htarget
  obtain ⟨-, before, b, behind, last, -, -, -, honly, hnodes⟩ := hgated
  have hnames : cx.classSites.map (fun s => (s.declaration, (cx.registration? s).map (·.1))) =
      [(⟨.classDecl, .ofWidth 17 40⟩, some "M.1L"), (⟨.classDecl, .ofWidth 67 24⟩, some "M.2L")] := by
    decide +kernel
  have hnodup : (apart.sites.map Site.declaration).Nodup := by decide +kernel
  have hlast : last = target := by
    apply honly
    intro s hs t ht
    have ht : cx.registration? s = some ("M.1L", t) := ht
    have hmem : (s.declaration, (cx.registration? s).map (·.1)) ∈ cx.classSites.map
        fun s => (s.declaration, (cx.registration? s).map (·.1)) := List.mem_map_of_mem hs
    rw [hnames, ht] at hmem
    -- the other class is registered under another name
    rcases List.mem_cons.1 hmem with hfirst | hsecond
    · have hsmem : s ∈ apart.sites := (List.mem_filter.1 hs).1
      exact List.inj_on_of_nodup_map hnodup hsmem hc ((Prod.mk.inj hfirst).1.trans hspan.symm)
    · have hother : some "M.1L" = some "M.2L" := (Prod.mk.inj (List.mem_singleton.1 hsecond)).2
      exact absurd hother (by decide)
  let n : Site := apart.sites.get ⟨8, by decide +kernel⟩
  have hn : n ∈ apart.sites := List.get_mem ..
  have hmeans : cx.Means n (shadowed (.ofBinary "M$1L")) := .inl rfl
  obtain ⟨found, -, hvisit⟩ := (hnodes n hn _ hmeans rfl (.inl rfl)).2 (by decide +kernel)
  refine ⟨⟨n, hn, hmeans, fun d hfree => ?_⟩, by decide +kernel⟩
  have hname : last.renames.method? (shadowed (.ofBinary "M$1L")).name
      (shadowed (.ofBinary "M$1L")).descriptor = some "b" := hlast ▸ hnew
  have hstep := hvisit d
  rw [if_pos ⟨hfree, rfl⟩, hname] at hstep
  exact hstep

/-- **The target of the second class names the method of the first one.** -/
theorem twins_named_by_last :
    localsRun.report twins = .ok ⟨"class M\x7bvoid f()\x7b@Mixin(A.class)class L\x7b@Shadow int c();" ++
      "\x7d\x7dvoid g()\x7b@Mixin(B.class)class L\x7b\x7d\x7d\x7d", [], []⟩ ∧
    ¬ ∀ (file : SourceFile) (renames : Renames) (forbidImplicit : Bool) (d : Draft) (c use : Site)
        (name : ClassName) (target : MixinTarget) (m : Method),
      let cx := Context.ofFile file renames forbidImplicit
      let after := (cx.renameMixins d).1
      file.language = .java → c ∈ file.sites → c.kind = .classDecl → cx.mixinUse? c = some use →
      file.symbol? c = some (.classType name) → cx.target? use = some target → m.owner = name →
      Context.standsIn m = true → after.methodName? m =
        (target.renames.method? m.name m.descriptor).or (after.inheritedName? m) := by
  refine ⟨by decide +kernel, fun h => ?_⟩
  obtain ⟨c, use, target, hc, hkind, -, huse, hsymbol, htarget, hnew⟩ :=
    first_local ⟨"M$1L", "M.L"⟩ ⟨"M$2L", "M.L"⟩
  have hname := h twins localsRun.renames localsRun.settings.forbidImplicit (.ofText twins.text) c use
    ⟨"M$1L", "M.L"⟩ target (shadowed ⟨"M$1L", "M.L"⟩) rfl hc hkind huse hsymbol htarget rfl
    (by decide +kernel)
  have hlast : ((Context.ofFile twins localsRun.renames localsRun.settings.forbidImplicit).renameMixins
      (.ofText twins.text)).1.methodName? (shadowed ⟨"M$1L", "M.L"⟩) = some "c" := by
    decide +kernel
  have hfirst : target.renames.method? (shadowed ⟨"M$1L", "M.L"⟩).name
      (shadowed ⟨"M$1L", "M.L"⟩).descriptor = some "b" := hnew
  rw [hname, hfirst, Option.some_or] at hlast
  exact absurd hlast (by decide)

end Mixin

end SourceRename
