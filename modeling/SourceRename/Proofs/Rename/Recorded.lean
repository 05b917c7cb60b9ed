import SourceRename.Proofs.Rename.Alone
import SourceRename.Proofs.Template.Offer

/-!
# What is recorded stays recorded

Problems and conflicts are only ever added to a draft, behind those that are there
(`Draft.Recalls`).  So a problem that is found in one step of a pass is in the report of the file
(`Run.mem_diagnostics`), and whoever asks whether something is reported need only look at the step
where it is found. -/

namespace SourceRename

abbrev Run.context (run : Run) (file : SourceFile) : Context :=
  .ofFile file run.renames run.settings.forbidImplicit

namespace Draft

variable {d e f : Draft} {x : Diagnostic}

namespace Recalls

theorem refl (d : Draft) : d.Recalls d := ⟨List.prefix_rfl, List.prefix_rfl⟩

theorem trans (h : d.Recalls e) (h' : e.Recalls f) : d.Recalls f :=
  ⟨h.1.trans h'.1, h.2.trans h'.2⟩

theorem of_quiet {g : Draft → Draft} (hg : Quiet g) (d : Draft) : d.Recalls (g d) := by
  obtain ⟨hdiagnostics, hconflicts⟩ := hg d
  rw [Recalls, hdiagnostics, hconflicts]
  exact refl d

theorem foldl {α : Type} {g : Draft → α → Draft} {xs : List α}
    (hg : ∀ d, ∀ x ∈ xs, Draft.Recalls d (g d x)) (d : Draft) : d.Recalls (xs.foldl g d) := by
  induction xs generalizing d with
  | nil => exact refl d
  | cons x xs ih =>
    have hrest := ih fun d y hy => hg d y (List.mem_cons_of_mem x hy)
    exact (hg d x List.mem_cons_self).trans (hrest (g d x))

end Recalls

theorem Touches.recalls {span? : Option Span} {code : String} (h : d.Touches span? code e) :
    d.Recalls e := by
  obtain ⟨problem?, hdiagnostics, -⟩ := h.diagnostics
  rw [Recalls, hdiagnostics, h.conflicts]
  exact ⟨List.prefix_rfl, List.prefix_append _ _⟩

theorem mem_diagnostics_of_result {r : Report} (h : d.result = .ok r) (hx : x ∈ d.diagnostics) :
    x ∈ r.diagnostics := by
  rw [result] at h
  split at h
  · next text conflicts happly =>
    obtain rfl := Except.ok.inj h
    have hrefused : d.Recalls (conflicts.foldl refuse d) := by
      refine .foldl (fun d c _ => ?_) d
      exact ⟨List.prefix_append _ _, List.prefix_append _ _⟩
    exact hrefused.2.subset hx
  · exact absurd h (by simp)

end Draft

namespace Context

variable {cx : Context} {site : Site} {d : Draft}

/-! ### Names -/

theorem recalls_renameField (cx : Context) (site : Site) (field : Field) (d : Draft) :
    d.Recalls (cx.renameField site field d) := by
  obtain ⟨hdiagnostics, hconflicts⟩ := diagnostics_renameField cx site field d
  rw [Draft.Recalls, hdiagnostics, hconflicts]
  exact ⟨List.prefix_rfl, List.prefix_append _ _⟩

mutual

theorem recalls_rename (cx : Context) (site : Site) :
    (symbol : Symbol) → ∀ d : Draft, d.Recalls (cx.rename site symbol d)
  | .field field, d => by simpa only [rename] using cx.recalls_renameField site field d
  | .method m, d => by simpa only [rename] using .of_quiet (quiet_renameMethod cx site m) d
  | .function m, d => by simpa only [rename] using .of_quiet (quiet_renameMethod cx site m) d
  | .classType name, d => by
    simpa only [rename, renameClass] using .of_quiet (quiet_renameQualified cx site _ _) d
  | .package name, d => by
    simpa only [rename] using .of_quiet (quiet_renameQualified cx site _ _) d
  | .property getter, d => by
    simpa only [rename] using .of_quiet (quiet_renameProperty cx site getter) d
  | .compiled overridden, d => by
    simpa only [rename] using recalls_renameFirst cx site overridden d

theorem recalls_renameFirst (cx : Context) (site : Site) :
    (symbols : List Symbol) → ∀ d : Draft, d.Recalls (cx.renameFirst site symbols d)
  | [], d => by
    rw [renameFirst]
    exact .refl d
  | symbol :: symbols, d => by
    have hone := recalls_rename cx site symbol d
    rw [renameFirst]
    split
    · exact hone.trans (recalls_renameFirst cx site symbols _)
    · exact hone

end

theorem recalls_renameJava (cx : Context) (d : Draft) : d.Recalls (cx.renameJava d) := by
  refine .foldl (fun d site _ => ?_) d
  rw [visitJava]
  split
  · rw [renameSite]
    split
    · exact cx.recalls_rename site _ d
    · exact .refl d
  · exact .refl d

/-! ### Mixin classes -/

theorem quiet_replaceFree (span : Span) (new : String) : Quiet fun d => d.replaceFree span new := by
  intro d
  simp only [Draft.replaceFree]
  split
  · exact quiet_replace span new d
  · exact ⟨rfl, rfl⟩

theorem quiet_replaceLiteral (span : Span) (old new : String) :
    Quiet fun d => d.replaceLiteral span old new := by
  intro d
  simp only [Draft.replaceLiteral]
  split
  · exact ⟨rfl, rfl⟩
  · exact quiet_replaceFree span _ d

end Context

theorem MixinStep.recalls_run (d : Draft) (step : MixinStep) : d.Recalls (step.run d) := by
  cases step with
  | point cx use =>
    rw [run, Context.visitPoint]
    split
    · exact .refl d
    · split
      · exact .refl d
      · exact .of_quiet (Context.quiet_replaceLiteral _ _ _) d
  | spell span new => exact .of_quiet (Context.quiet_replaceFree span _) d
  | member cx work => exact (work.task.run_touches cx work.target d).recalls

/-- **What is found in a step of the mixin pass is reported.** -/
theorem Run.mem_diagnostics {run : Run} {file : SourceFile} (hjava : file.language = .java)
    {before behind : List MixinStep} {step : MixinStep}
    (hsteps : (run.context file).mixinSteps = before ++ step :: behind)
    {x : Diagnostic} (hx : x ∈ (step.run (before.foldl MixinStep.run
      (Template.offerAll run.templates file (.ofText file.text)))).diagnostics) :
    x ∈ (run.draft file).diagnostics ∧
      ∀ r, run.report file = .ok r → x ∈ r.diagnostics := by
  have hbehind := Draft.Recalls.foldl (fun d step (_ : step ∈ behind) => step.recalls_run d)
    (step.run (before.foldl MixinStep.run (Template.offerAll run.templates file (.ofText file.text))))
  have hpass : (run.beforeWalk file).2 = behind.foldl MixinStep.run (step.run
      (before.foldl MixinStep.run (Template.offerAll run.templates file (.ofText file.text)))) := by
    rw [beforeWalk, Context.renameMixins_eq, hsteps, List.foldl_append, List.foldl_cons]
  rw [← hpass] at hbehind
  have hdraft : x ∈ (run.draft file).diagnostics := by
    rw [draft_eq hjava]
    exact (hbehind.trans (Context.recalls_renameJava _ _)).2.subset hx
  refine ⟨hdraft, fun r hr => Draft.mem_diagnostics_of_result ?_ hdraft⟩
  exact (report_eq_ok_iff.1 hr).2

end SourceRename
