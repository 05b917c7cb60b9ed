import Mathlib.Data.List.TakeWhile
import SourceRename.Proofs.Mixin.Accessors
import SourceRename.Proofs.Mixin.BareNames
import SourceRename.Proofs.Rename.Recorded

/-!
# Names of several methods

Invokers name a method of the target by its name alone, and injectors may do so.  The renames of the
target can have several entries for one name:

    a()V ↦ b
    a(I)V ↦ c

An injector asks what the target declares.  Where several methods have the name, this is an error,
and the report tells which they are.  An invoker takes the first entry, and nothing tells that there
is another one.  So of the members that name a method by such a name, just the injectors are
reported (`Context.bare_reported_iff`). -/

namespace SourceRename

namespace Context

variable {cx cx' : Context} {target : MixinTarget} {decl : ClassDecl} {task : MemberTask}
  {method use attr value literal c : Site} {old text name : String} {d : Draft}

/-! ### Names for which there are several entries -/

/-- The member names a method of the target, and by its name alone. -/
inductive NamesBare (cx : Context) : MemberTask → String → Prop
  | invoker {method use : Site} {old : String} : accessed? method use = some old →
      NamesBare cx (.access method use .invoker) old
  | injector {method use attr value literal : Site} {old : String} :
      cx.injectedLiteral? value = some literal → literal.stringValue? = some old →
      '(' ∉ old.toList → NamesBare cx (.inject method use attr value) old

/-- The entry is for the method, by its descriptor or for all methods of its name. -/
def Covers (key : MethodKey) (m : Method) : Prop :=
  key.name = m.name ∧ ∀ descriptor ∈ key.descriptor, descriptor = m.descriptor

/-- Two entries have different new names for methods of the name.  For an injector, the target is
known and declares two methods that they are for. -/
def Ambiguous (target : MixinTarget) (task : MemberTask) (old : String) : Prop :=
  ∃ e₁ ∈ target.renames.methods.entries, ∃ e₂ ∈ target.renames.methods.entries,
    e₁.1.name = old ∧ e₂.1.name = old ∧ e₁.2 ≠ e₂.2 ∧
    ∀ method use attr value, task = .inject method use attr value →
      ∃ decl, target.decl? = some decl ∧ ∃ m₁ ∈ decl.methods, ∃ m₂ ∈ decl.methods,
        m₁ ≠ m₂ ∧ Covers e₁.1 m₁ ∧ Covers e₂.1 m₂

def Reported (d e : Draft) : Prop :=
  ∃ x : Diagnostic, x.isError = true ∧ e.diagnostics = d.diagnostics ++ [x]

def severalNamed (decl : ClassDecl) (old : String) : Problem :=
  .ambiguousTarget old ((decl.methodsNamed old).map fun m => old ++ m.descriptor)

theorem concerns_of_ambiguous (hambiguous : Ambiguous target task old) :
    task.concerns target = true := by
  obtain ⟨e₁, he₁, e₂, he₂, -, -, -, hdeclared⟩ := hambiguous
  have hmethods : target.renames.hasMethods = true := by
    rw [ClassRename.hasMethods, Table.isEmpty, Bool.not_eq_true', List.isEmpty_eq_false_iff]
    exact List.ne_nil_of_mem he₁
  cases task with
  | access method use kind =>
    rw [MemberTask.concerns, hmethods, Bool.or_true]
  | inject method use attr value =>
    obtain ⟨decl, hdecl, -⟩ := hdeclared method use attr value rfl
    rw [MemberTask.concerns, hmethods, hdecl]
    rfl

/-! ### The step for a member -/

theorem file_of_mem_stepsFrom {sites : List Site} {w : MemberWork}
    (h : .member cx' w ∈ cx.stepsFrom sites) : cx'.file = cx.file := by
  induction sites generalizing cx with
  | nil => exact absurd h List.not_mem_nil
  | cons site sites ih =>
    rw [stepsFrom] at h
    rcases List.mem_append.1 h with h | h
    · rw [classSteps] at h
      split at h
      · exact absurd h List.not_mem_nil
      · rcases List.mem_append.1 h with h | h
        · obtain ⟨use, -, h⟩ := List.mem_map.1 h
          exact absurd h (by simp)
        · split at h
          · exact absurd h List.not_mem_nil
          · rcases List.mem_append.1 h with h | h
            · obtain ⟨spelled, -, h⟩ := Option.map_eq_some_iff.1 (Option.mem_toList.1 h)
              exact absurd h (by simp)
            · obtain ⟨task, -, h⟩ := List.mem_map.1 h
              obtain ⟨rfl, -⟩ := MixinStep.member.inj h
              exact cx.file_register site
    · rw [ih h, cx.file_register site]

/-- **Each member of a registered class that is of concern has its step.** -/
theorem exists_step (hc : c ∈ cx.classSites) (hregistered : cx.registration? c = some (name, target))
    (htask : task ∈ cx.tasks c) (hconcerns : task.concerns target = true) :
    ∃ before cx' behind, cx.mixinSteps = before ++ .member cx' ⟨c, target, task⟩ :: behind ∧
      cx'.file = cx.file := by
  have hwork : (⟨c, target, task⟩ : MemberWork) ∈ cx.memberWork := by
    refine List.mem_flatMap.2 ⟨c, hc, ?_⟩
    rw [mem_workFor_iff, hregistered]
    exact ⟨rfl, rfl, List.mem_filter.2 ⟨htask, hconcerns⟩⟩
  rw [← work_mixinSteps] at hwork
  obtain ⟨step, hstep, hwork⟩ := List.mem_filterMap.1 hwork
  cases step with
  | point cx' use => exact absurd hwork (by simp [MixinStep.work?])
  | spell span new => exact absurd hwork (by simp [MixinStep.work?])
  | member cx' work =>
    obtain rfl := Option.some.inj hwork
    obtain ⟨before, behind, hsteps⟩ := List.append_of_mem hstep
    exact ⟨before, cx', behind, hsteps, file_of_mem_stepsFrom hstep⟩

/-! ### Injectors -/

theorem splitDescriptor_of_bare (h : '(' ∉ text.toList) : splitDescriptor text = (text, none) := by
  have hall : ∀ c ∈ text.toList, (c != '(') = true := by
    intro c hc
    rw [bne_iff_ne]
    rintro rfl
    exact h hc
  rw [splitDescriptor, List.takeWhile_eq_self_iff.2 hall, List.dropWhile_eq_nil_iff.2 hall,
    String.ofList_toList]
  rfl

theorem one_lt_methodsNamed {m₁ m₂ : Method} (h₁ : m₁ ∈ decl.methods) (h₂ : m₂ ∈ decl.methods)
    (hne : m₁ ≠ m₂) (hname₁ : m₁.name = old) (hname₂ : m₂.name = old) :
    1 < (decl.methodsNamed old).length := by
  have hmem₁ : m₁ ∈ decl.methodsNamed old := List.mem_filter.2 ⟨h₁, beq_iff_eq.2 hname₁⟩
  have hmem₂ : m₂ ∈ decl.methodsNamed old := List.mem_filter.2 ⟨h₂, beq_iff_eq.2 hname₂⟩
  by_contra hfew
  match hlist : decl.methodsNamed old with
  | [] =>
    rw [hlist] at hmem₁
    exact absurd hmem₁ List.not_mem_nil
  | [m] =>
    rw [hlist, List.mem_singleton] at hmem₁ hmem₂
    exact hne (hmem₁.trans hmem₂.symm)
  | _ :: _ :: _ =>
    rw [hlist, List.length_cons, List.length_cons] at hfew
    omega

theorem diagnostics_renameInjected (r : ClassRename) (d : Draft)
    (hliteral : cx.injectedLiteral? value = some literal) (hold : literal.stringValue? = some old)
    (hbare : '(' ∉ old.toList) (hmany : 1 < (decl.methodsNamed old).length) :
    (cx.renameInjected r decl attr d value).diagnostics =
      d.diagnostics ++ [(severalNamed decl old).locate d.text attr.span.start] := by
  have hsplit := splitDescriptor_of_bare hbare
  rw [renameInjected_eq d hliteral hold, hsplit, if_pos ⟨rfl, hmany⟩,
    Draft.diagnostics_replaceLiteral]
  rfl

/-! ### Invokers -/

/-- An invoker takes the first entry for its name, whether or not there is another one. -/
theorem renameAccess_invoker {r : ClassRename} (hold : accessed? method use = some old)
    (hentry : ∃ e ∈ r.methods.entries, e.1.name = old) (d : Draft) :
    ∃ first, r.methods.entries.find? (·.1.name == old) = some first ∧
      renameAccess r method use .invoker d =
        if first.2 = old then d
        else d.replace (argumentSpan use) (writtenArguments method first.2) := by
  obtain ⟨e, he, hname⟩ := hentry
  have hsome : (r.methods.entries.find? (·.1.name == old)).isSome = true :=
    List.find?_isSome.2 ⟨e, he, beq_iff_eq.2 hname⟩
  obtain ⟨first, hfirst⟩ := Option.isSome_iff_exists.1 hsome
  have hnew : AccessKind.newName? r old .invoker = some first.2 := by
    rw [AccessKind.newName?, ClassRename.methodNamed?, hfirst]
    rfl
  refine ⟨first, hfirst, ?_⟩
  by_cases hsame : first.2 = old
  · rw [if_pos hsame, renameAccess]
    rw [accessed?, accessName] at hold
    rw [hold]
    dsimp only
    rw [hnew]
    exact if_pos hsame
  · rw [if_neg hsame]
    exact renameAccess_eq_replace hold hnew hsame

/-! ### Which of them are reported -/

/-- **Bare names.**  Let a mixin class have a target with new names, and let a member of it name a
method by a name for which the target has two new names.  The member is worked on, and an error is
reported for it at this time if and only if it is an injector.  The error names all methods of the
name that the target declares, and it is in the report of the file.  For an invoker the first entry
is taken. -/
theorem bare_reported_iff {run : Run} {file : SourceFile} (hjava : file.language = .java)
    (hc : c ∈ (run.context file).classSites)
    (hregistered : (run.context file).registration? c = some (name, target))
    (htask : task ∈ (run.context file).tasks c) (hnamed : (run.context file).NamesBare task old)
    (hambiguous : Ambiguous target task old) :
    ∃ before cx' behind,
      (run.context file).mixinSteps = before ++ .member cx' ⟨c, target, task⟩ :: behind ∧
      let d := before.foldl MixinStep.run (Template.offerAll run.templates file (.ofText file.text))
      let e := task.run cx' target d
      (Reported d e ↔ ∃ method use attr value, task = .inject method use attr value) ∧
      (∀ method use attr value, task = .inject method use attr value →
        ∃ decl, target.decl? = some decl ∧ 1 < (decl.methodsNamed old).length ∧
          let problem := (severalNamed decl old).locate file.text attr.span.start
          e.diagnostics = d.diagnostics ++ [problem] ∧ problem ∈ (run.draft file).diagnostics ∧
          ∀ r, run.report file = .ok r → problem ∈ r.errors) ∧
      ∀ method use, task = .access method use .invoker →
        ∃ first, target.renames.methods.entries.find? (·.1.name == old) = some first ∧
          e = if first.2 = old then d
            else d.replace (argumentSpan use) (writtenArguments method first.2) := by
  obtain ⟨before, cx', behind, hsteps, hfile⟩ :=
    exists_step hc hregistered htask (concerns_of_ambiguous hambiguous)
  obtain ⟨e₁, he₁, e₂, he₂, hname₁, hname₂, -, hdeclared⟩ := hambiguous
  refine ⟨before, cx', behind, hsteps, ?_⟩
  intro d e
  cases hnamed with
  | @invoker method use old hold =>
    obtain ⟨first, hfirst, hrun⟩ := renameAccess_invoker hold ⟨e₁, he₁, hname₁⟩ d
    have hquiet : e.diagnostics = d.diagnostics := by
      rw [show e = _ from hrun]
      split
      · rfl
      · exact (quiet_replace _ _ d).1
    refine ⟨⟨?_, ?_⟩, ?_, ?_⟩
    · rintro ⟨x, -, hx⟩
      rw [hquiet, List.self_eq_append_right] at hx
      exact absurd hx (List.cons_ne_nil _ _)
    · rintro ⟨_, _, _, _, htask⟩
      exact absurd htask (by simp)
    · intro _ _ _ _ htask
      exact absurd htask (by simp)
    · intro _ _ htask
      obtain ⟨rfl, rfl, -⟩ := MemberTask.access.inj htask
      exact ⟨first, hfirst, hrun⟩
  | @injector method use attr value literal old hliteral hold hbare =>
    obtain ⟨decl, hdecl, m₁, hm₁, m₂, hm₂, hne, hcovers₁, hcovers₂⟩ :=
      hdeclared method use attr value rfl
    have hmany := one_lt_methodsNamed hm₁ hm₂ hne (hcovers₁.1.symm.trans hname₁)
      (hcovers₂.1.symm.trans hname₂)
    have hliteral' : cx'.injectedLiteral? value = some literal := by
      rw [← hliteral, injectedLiteral?, injectedLiteral?, hfile]
    have htext : d.text = file.text :=
      (Draft.Extends.foldl (P := Edits.anySpan)
        (fun d step _ => (step.run_extends d).mono fun _ _ _ => trivial) _).text.trans
        (Template.extends_offerAll run.templates file _).text
    have hdiagnostics : e.diagnostics =
        d.diagnostics ++ [(severalNamed decl old).locate file.text attr.span.start] := by
      rw [← htext, ← diagnostics_renameInjected target.renames d hliteral' hold hbare hmany]
      show (MemberTask.run _ _ _ _).diagnostics = _
      rw [MemberTask.run, hdecl]
    have hmem : (severalNamed decl old).locate file.text attr.span.start ∈ e.diagnostics := by
      rw [hdiagnostics]
      exact List.mem_append_right _ List.mem_cons_self
    obtain ⟨hdraft, hreport⟩ := Run.mem_diagnostics hjava hsteps hmem
    refine ⟨⟨fun _ => ⟨_, _, _, _, rfl⟩, fun _ => ⟨_, rfl, hdiagnostics⟩⟩, ?_, ?_⟩
    · intro _ _ _ _ htask
      obtain ⟨-, -, rfl, -⟩ := MemberTask.inject.inj htask
      refine ⟨decl, hdecl, hmany, hdiagnostics, hdraft, fun r hr => ?_⟩
      exact List.mem_filter.2 ⟨hreport r hr, rfl⟩
    · intro _ _ htask
      exact absurd htask (by simp)

end Context

/-! ### A name of two methods -/

namespace Mixin

def overloads : ClassDecl := ⟨.ofBinary "A", none, [], [plain "a" "()V", plain "a" "(I)V"], []⟩

def injectingOverload : SourceFile := { injecting with scope := ⟨.empty, .ofList [overloads]⟩ }

/-- The invoker `@Invoker("a")void callA();` in a class with the target `A`. -/
def invoking : SourceFile where
  name := "M.java"
  language := .java
  text := "@Mixin(A.class)class M\x7b@Invoker(\"a\")void callA();\x7d"
  tree := .node .sourceFile [classWith (targeting "A") "M" (.node .methodDecl [
    .node .modifierList [.node .annotationUse [.token .at "@", .token .ident "Invoker",
      .node .annotationArgs [.token .lParen "(",
        .node .annotationAttr [.node .literal [.token .string "\"a\""]], .token .rParen ")"]]],
    .token .ident "void", .token .whitespace " ", .token .ident "callA", .token .lParen "(",
    .token .rParen ")", .token .semicolon ";"])]
  symbols := .ofList [((.classDecl, .ofWidth 0 50), .classType (.ofBinary "M")),
    ((.reference, .ofWidth 7 1), .classType (.ofBinary "A"))]
  types := .empty
  scope := ⟨.empty, .ofList [overloads]⟩

def overloadRun : Run where
  renames := Renames.empty.declare "A" "A" fun c =>
    (c.addMethod ⟨"a", some "()V"⟩ "b").addMethod ⟨"a", some "(I)V"⟩ "c"
  templates := []
  settings := {}

theorem ambiguous_overload {target : MixinTarget} (task : MemberTask)
    (htable : overloadRun.renames.find? "A" = some target.renames)
    (hdecl : target.decl? = some overloads) : Context.Ambiguous target task "a" := by
  have hentries : target.renames.methods.entries =
      [(⟨"a", some "()V"⟩, "b"), (⟨"a", some "(I)V"⟩, "c")] := by
    have hfound : (overloadRun.renames.find? "A").map (·.methods.entries) =
        some [(⟨"a", some "()V"⟩, "b"), (⟨"a", some "(I)V"⟩, "c")] := by decide +kernel
    rw [htable] at hfound
    exact Option.some.inj hfound
  refine ⟨(⟨"a", some "()V"⟩, "b"), ?_, (⟨"a", some "(I)V"⟩, "c"), ?_, rfl, rfl, by decide, ?_⟩
  · rw [hentries]
    exact List.mem_cons_self
  · rw [hentries]
    exact List.mem_cons_of_mem _ List.mem_cons_self
  · intro _ _ _ _ _
    refine ⟨overloads, hdecl, plain "a" "()V", List.mem_cons_self, plain "a" "(I)V",
      List.mem_cons_of_mem _ List.mem_cons_self, by decide, ⟨rfl, ?_⟩, ⟨rfl, ?_⟩⟩
    · rintro descriptor hd
      exact (Option.some.inj hd).symm
    · rintro descriptor hd
      exact (Option.some.inj hd).symm

/-- An injector is reported, and the two methods are named. -/
theorem injected_overload_reported :
    (⟨⟨0, 31⟩, .error, some "E0001",
      "Ambiguous mixin method \"a\" may refer to any of: \"a()V\", \"a(I)V\""⟩ : Diagnostic) ∈
        (overloadRun.draft injectingOverload).diagnostics := by
  obtain ⟨c, target, method, use, attr, value, literal, hc, hregistered, htasks, htable, hdecl, hliteral,
      htext, hattr⟩ :
      ∃ (c : Site) (target : MixinTarget) (method use attr value literal : Site),
        (overloadRun.context injectingOverload).classSites = [c] ∧
        (overloadRun.context injectingOverload).registration? c = some ("M", target) ∧
        (overloadRun.context injectingOverload).tasks c = [.inject method use attr value] ∧
        overloadRun.renames.find? "A" = some target.renames ∧ target.decl? = some overloads ∧
        (overloadRun.context injectingOverload).injectedLiteral? value = some literal ∧
        literal.stringValue? = some "a" ∧ attr.span.start = 31 :=
    ⟨_, _, _, _, _, _, _, rfl, rfl, rfl, rfl, rfl, rfl, rfl, rfl⟩
  have hjava : injectingOverload.language = .java := rfl
  obtain ⟨before, cx', behind, -, -, hinjected, -⟩ := Context.bare_reported_iff hjava
    (hc ▸ List.mem_cons_self) hregistered (htasks ▸ List.mem_cons_self)
    (.injector hliteral htext (by decide)) (ambiguous_overload _ htable hdecl)
  obtain ⟨decl, hfound, -, -, hmem, -⟩ := hinjected method use attr value rfl
  obtain rfl := Option.some.inj (hdecl.symm.trans hfound)
  rw [hattr] at hmem
  have hproblem : (Context.severalNamed overloads "a").locate injectingOverload.text 31 =
      ⟨⟨0, 31⟩, .error, some "E0001",
        "Ambiguous mixin method \"a\" may refer to any of: \"a()V\", \"a(I)V\""⟩ := by
    decide +kernel
  rwa [hproblem] at hmem

/-- **An invoker for one of two methods.**  Nothing is reported, and the invoker stands for the
method of the first entry. -/
theorem invoked_overload_guessed :
    overloadRun.report invoking =
      .ok ⟨"@Mixin(A.class)class M\x7b@Invoker(\"b\")void callA();\x7d", [], []⟩ ∧
    ¬ ∀ (run : Run) (file : SourceFile) (c : Site) (name : String) (target : MixinTarget)
        (task : MemberTask) (old : String) (r : Report), file.language = .java →
      c ∈ (run.context file).classSites →
      (run.context file).registration? c = some (name, target) → task ∈ (run.context file).tasks c →
      (run.context file).NamesBare task old → Context.Ambiguous target task old →
      run.report file = .ok r → r.errors ≠ [] := by
  have hreport : overloadRun.report invoking =
      .ok ⟨"@Mixin(A.class)class M\x7b@Invoker(\"b\")void callA();\x7d", [], []⟩ := by
    decide +kernel
  obtain ⟨c, target, method, use, hc, hregistered, htasks, htable, hdecl, hold⟩ :
      ∃ (c : Site) (target : MixinTarget) (method use : Site),
        (overloadRun.context invoking).classSites = [c] ∧
        (overloadRun.context invoking).registration? c = some ("M", target) ∧
        (overloadRun.context invoking).tasks c = [.access method use .invoker] ∧
        overloadRun.renames.find? "A" = some target.renames ∧ target.decl? = some overloads ∧
        Context.accessed? method use = some "a" :=
    ⟨_, _, _, _, rfl, rfl, rfl, rfl, rfl, rfl⟩
  refine ⟨hreport, fun h => ?_⟩
  exact h overloadRun invoking c "M" target (.access method use .invoker) "a" _ rfl
    (hc ▸ List.mem_cons_self) hregistered (htasks ▸ List.mem_cons_self) (.invoker hold)
    (ambiguous_overload _ htable hdecl) hreport rfl

end Mixin

end SourceRename
