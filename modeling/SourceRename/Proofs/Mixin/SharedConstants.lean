import SourceRename.Proofs.Mixin.BareNames
import SourceRename.Proofs.Rename.QualifiedNames
import SourceRename.Proofs.Rename.Recorded
import SourceRename.Proofs.Syntax.StringLiterals

/-!
# Constants that several injectors use

Injectors may take their values from one constant, whose literal is then to have the new name.  Each
use computes the new name for its own target (`Context.Wants`), and the literal can have only one:

    use in a mixin of `A`   wants `b`   the literal becomes "b"
    use in a mixin of `B`   wants `c`   the literal stays "b"

The first use that wants another text than the old one writes it.  Behind it the literal is not free
any more, and the uses that come later are passed over, whatever they want; what they report does
not depend on it.  So the literal is as all of them want it exactly if they all want the same
(`Run.shared_constant_iff`). -/

namespace SourceRename

namespace Context

variable {cx cx' : Context} {literal value : Site} {old new text : String} {step : MixinStep}

/-! ### What the uses want -/

/-- The step is for a value that stands for the literal, and the literal is to have this value. -/
inductive Wants (literal : Site) (old : String) : MixinStep → String → Prop
  | mk {cx : Context} {mixin method use attr value : Site} {target : MixinTarget} {decl : ClassDecl} :
      target.decl? = some decl → cx.injectedLiteral? value = some literal →
      Wants literal old (.member cx ⟨mixin, target, .inject method use attr value⟩)
        (cx.injectedName target.renames decl old)

theorem Wants.unique (h : Wants literal old step new) (h' : Wants literal old step text) :
    new = text := by
  cases h with
  | mk hdecl _ =>
    cases h' with
    | mk hdecl' _ =>
      obtain rfl := Option.some.inj (hdecl.symm.trans hdecl')
      rfl

/-- What is done for a use: perhaps a problem is reported, whatever is listed, and then the literal
is replaced if it is free. -/
theorem Wants.run_eq (h : Wants literal old step new) (hold : literal.stringValue? = some old) :
    ∃ problems : String → List Diagnostic, ∀ d : Draft,
      step.run d = { d with diagnostics := d.diagnostics ++ problems d.text }.replaceLiteral
        literal.span old new := by
  cases h with
  | @mk cx mixin method use attr value target decl hdecl hliteral =>
    have hrun (d : Draft) :
        (MixinStep.member cx ⟨mixin, target, .inject method use attr value⟩).run d =
          cx.renameInjected target.renames decl attr d value := by
      rw [MixinStep.run, MemberTask.run, hdecl]
    simp only [hrun, renameInjected_eq _ hliteral hold]
    by_cases hseveral : (splitDescriptor old).2 = none ∧
        1 < (decl.methodsNamed (splitDescriptor old).1).length
    · refine ⟨fun text => [(Problem.ambiguousTarget (splitDescriptor old).1
        ((decl.methodsNamed (splitDescriptor old).1).map fun m =>
          (splitDescriptor old).1 ++ m.descriptor)).locate text attr.span.start], fun d => ?_⟩
      rw [if_pos hseveral]
      rfl
    · refine ⟨fun _ => [], fun d => ?_⟩
      rw [if_neg hseveral, List.append_nil]

end Context

open Context (Wants)

/-! ### The literal, step by step -/

/-- The literal of a constant is one token, and nothing but the steps that are for it replaces any
of it before the references are renamed. -/
structure Run.Constant (run : Run) (file : SourceFile) (literal : Site) (old : String) : Prop where
  mem : literal ∈ file.sites
  token : ∃ quoted, literal.children = [.token .string quoted] ∧ Quoted.value? quoted = some old
  templates : ∀ s, (Template.offerAll run.templates file (.ofText file.text)).edits.hasSpan s = true →
    s.Apart literal.span
  others : ∀ step ∈ (run.context file).mixinSteps, (∀ new, ¬ Wants literal old step new) →
    ∀ s, step.span? = some s → s.Apart literal.span

/-- The literal is listed with the new value, or it is not listed; all else stands apart from it. -/
structure Settled (file : SourceFile) (literal : Site) (new? : Option String) (d : Draft) : Prop where
  text : d.text = file.text
  listed : d.edits.textAt? literal.span = new?.map Quoted.literal
  apart : ∀ s, d.edits.hasSpan s = true → s = literal.span ∨ s.Apart literal.span

section

variable {run : Run} {file : SourceFile} {literal n : Site} {old new text quoted : String}
  {new? : Option String} {d : Draft} {step : MixinStep} {steps : List MixinStep} {s : Span}

namespace Run.Constant

theorem stringValue? (h : run.Constant file literal old) : literal.stringValue? = some old := by
  obtain ⟨quoted, hone, hvalue⟩ := h.token
  rw [Site.stringValue?_of_token hone, hvalue]

/-- Another node of the file lies around the literal or stands apart from it. -/
theorem around_or_apart (h : run.Constant file literal old) (hn : n ∈ file.sites)
    (hne : n ≠ literal) : literal ∈ n.below ∨ n.span.Apart literal.span := by
  obtain ⟨quoted, hone, -⟩ := h.token
  have hleaf : literal.below = [] := by
    rw [Site.below, hone]
    rfl
  rcases Site.below_or_apart hn h.mem hne with hbelow | hbelow | hapart
  · exact .inl hbelow
  · rw [hleaf] at hbelow
    exact absurd hbelow List.not_mem_nil
  · exact .inr hapart

variable (hfile : file.Lossless)
include hfile

theorem wide (h : run.Constant file literal old) : literal.span.start < literal.span.stop := by
  obtain ⟨quoted, hone, -⟩ := h.token
  have htoken : (⟨.string, quoted, literal.start⟩ : Token) ∈ literal.directTokens := by
    rw [Site.directTokens, Site.elements, hone]
    exact List.mem_singleton_self _
  have hnonempty := (hfile.standsIn h.mem).token_nonempty htoken
  have hin := Site.within_of_mem_directTokens htoken
  omega

theorem slice?_ne (h : run.Constant file literal old) (hne : new ≠ old) :
    slice? file.text.toList literal.span ≠ some (Quoted.literal new).toList := by
  obtain ⟨quoted, hone, hvalue⟩ := h.token
  rw [(hfile.standsIn h.mem).slice?, hone]
  intro hsame
  have hquoted : quoted.toList = (Quoted.literal new).toList := by
    have := Option.some.inj hsame
    rwa [Tree.textAll, Tree.textAll, List.append_nil] at this
  rw [String.toList_injective hquoted, Quoted.value?_literal] at hvalue
  exact hne (Option.some.inj hvalue)

end Run.Constant

namespace Settled

theorem isFree (h : Settled file literal none d) : d.isFree literal.span = true := by
  refine Edits.isFree_iff.2 fun s hs => ?_
  rcases h.apart s hs with rfl | hapart
  · rw [Edits.textAt?_eq_none_iff.1 h.listed] at hs
    exact absurd hs Bool.false_ne_true
  · exact hapart.overlaps_eq_false

theorem isFree_eq_false (h : Settled file literal (some new) d)
    (hwide : literal.span.start < literal.span.stop) : d.isFree literal.span = false := by
  have hlisted : d.edits.hasSpan literal.span = true := by
    rw [← Bool.not_eq_false, ← Edits.textAt?_eq_none_iff, h.listed]
    exact Option.some_ne_none _
  rw [Bool.eq_false_iff]
  intro hfree
  rw [Edits.hasSpan_eq_false hfree hwide] at hlisted
  exact absurd hlisted Bool.false_ne_true

theorem with_diagnostics (h : Settled file literal new? d) (problems : List Diagnostic) :
    Settled file literal new? { d with diagnostics := problems } := ⟨h.text, h.listed, h.apart⟩

theorem run_other (h : Settled file literal new? d) (hwide : literal.span.start < literal.span.stop)
    (hapart : ∀ s, step.span? = some s → s.Apart literal.span) :
    Settled file literal new? (step.run d) := by
  have hextends := step.run_extends d
  refine ⟨hextends.text.trans h.text, ?_, fun s hs => ?_⟩
  · rw [← h.listed]
    refine hextends.edits.textAt?_eq_of_not fun _ hspan => ?_
    rcases hapart _ hspan with hbefore | hbehind
    · omega
    · omega
  · rcases hextends.edits.hasSpan_cases hs with hs | ⟨-, -, hspan⟩
    · exact h.apart s hs
    · exact .inr (hapart s hspan)

/-- A use that wants what the literal has from the beginning. -/
theorem run_same (h : Settled file literal new? d) (hold : literal.stringValue? = some old)
    (hwants : Wants literal old step old) : Settled file literal new? (step.run d) := by
  obtain ⟨problems, hrun⟩ := hwants.run_eq hold
  rw [hrun, Draft.replaceLiteral, if_pos rfl]
  exact h.with_diagnostics _

/-- A use of a literal that has been replaced. -/
theorem run_later (h : Settled file literal (some new) d)
    (hwide : literal.span.start < literal.span.stop) (hold : literal.stringValue? = some old)
    (hwants : Wants literal old step text) : Settled file literal (some new) (step.run d) := by
  obtain ⟨problems, hrun⟩ := hwants.run_eq hold
  have hreported := h.with_diagnostics (d.diagnostics ++ problems d.text)
  rw [hrun, Draft.replaceLiteral]
  split
  · exact hreported
  · rw [Draft.replaceFree, hreported.isFree_eq_false hwide, if_neg Bool.false_ne_true]
    exact hreported

/-- **The first use that wants another text** writes it. -/
theorem run_first (h : Settled file literal none d)
    (hslice : slice? file.text.toList literal.span ≠ some (Quoted.literal new).toList)
    (hold : literal.stringValue? = some old) (hwants : Wants literal old step new) (hne : new ≠ old) :
    Settled file literal (some new) (step.run d) := by
  obtain ⟨problems, hrun⟩ := hwants.run_eq hold
  have hreported := h.with_diagnostics (d.diagnostics ++ problems d.text)
  have hplace : slice? d.text.toList literal.span ≠ some (Quoted.literal new).toList := by
    rwa [h.text]
  rw [hrun, Draft.replaceLiteral, if_neg hne, Draft.replaceFree, if_pos hreported.isFree, Draft.replace,
    if_neg hplace]
  refine ⟨h.text, ?_, fun s hs => ?_⟩
  · rw [Draft.queue, Edits.textAt?_queue, if_pos rfl, hreported.listed]
    simp
  · rcases Edits.hasSpan_queue.1 hs with rfl | hs
    · exact .inl rfl
    · exact h.apart s hs

end Settled

namespace Run.Constant

variable (hfile : file.Lossless)
  (hsteps : ∀ step ∈ steps, step ∈ (run.context file).mixinSteps)
include hfile hsteps

/-- **A row of steps of which none wants another text** leaves the literal alone. -/
theorem settled_none (h : run.Constant file literal old)
    (hsame : ∀ step ∈ steps, ∀ new, Wants literal old step new → new = old)
    (hd : Settled file literal none d) : Settled file literal none (steps.foldl MixinStep.run d) := by
  induction steps generalizing d with
  | nil => exact hd
  | cons step steps ih =>
    obtain ⟨hstep, hsteps⟩ := List.forall_mem_cons.1 hsteps
    obtain ⟨hone, hsame⟩ := List.forall_mem_cons.1 hsame
    refine ih hsteps hsame ?_
    by_cases huse : ∃ new, Wants literal old step new
    · obtain ⟨new, hwants⟩ := huse
      obtain rfl := hone new hwants
      exact hd.run_same h.stringValue? hwants
    · exact hd.run_other (h.wide hfile) (h.others step hstep (not_exists.1 huse))

/-- **A row of steps leaves a replaced literal as it is**, whatever they want. -/
theorem settled_some (h : run.Constant file literal old) (hd : Settled file literal (some new) d) :
    Settled file literal (some new) (steps.foldl MixinStep.run d) := by
  induction steps generalizing d with
  | nil => exact hd
  | cons step steps ih =>
    obtain ⟨hstep, hsteps⟩ := List.forall_mem_cons.1 hsteps
    refine ih hsteps ?_
    by_cases huse : ∃ text, Wants literal old step text
    · obtain ⟨text, hwants⟩ := huse
      exact hd.run_later (h.wide hfile) h.stringValue? hwants
    · exact hd.run_other (h.wide hfile) (h.others step hstep (not_exists.1 huse))

end Run.Constant

/-! ### The walk behind the mixin classes -/

namespace Run.Constant

variable (hfile : file.Lossless)
include hfile

theorem apart_of_empty (h : run.Constant file literal old) (hn : n ∈ file.sites)
    (hempty : n.span.start = n.span.stop) : n.span.Apart literal.span := by
  have hwide := h.wide hfile
  have hne : n ≠ literal := by
    rintro rfl
    omega
  refine (h.around_or_apart hn hne).resolve_left fun hbelow => ?_
  have hin := Site.within_of_mem_below hbelow
  omega

theorem apart_of_target (h : run.Constant file literal old) (hn : n ∈ file.sites) (ht : n.Target s)
    (hshares : literal.span.overlaps s = false) : s.Apart literal.span := by
  have hsite : ∀ q ∈ file.sites, literal.span.overlaps q.span = false →
      q.span.Apart literal.span := by
    intro q hq hshares
    rcases Nat.eq_or_lt_of_le q.span.start_le_stop with hempty | hwide
    · exact h.apart_of_empty hfile hq hempty
    · have := h.wide hfile
      rw [Bool.eq_false_iff, ne_eq, Span.overlaps_iff] at hshares
      rw [Span.Apart]
      omega
  cases ht with
  | token ht =>
    have := (hfile.standsIn hn).token_nonempty ht
    have := h.wide hfile
    rw [Bool.eq_false_iff, ne_eq, Span.overlaps_iff] at hshares
    rw [Span.Apart]
    omega
  | whole => exact hsite n hn hshares
  | parent hp => exact hsite _ (SourceFile.mem_of_parent? hn hp).1 hshares

/-- **The references leave a replaced literal as it is.** -/
theorem settled_renameJava {cx : Context} (hcx : cx.file = file) (hjava : file.language = .java)
    (h : run.Constant file literal old) (hd : Settled file literal (some new) d) :
    Settled file literal (some new) (cx.renameJava d) := by
  have hkotlin : cx.file.isKotlin = false := hcx ▸ SourceFile.isKotlin_of_java hjava
  obtain ⟨htext, hgrows⟩ := Context.grows_visitJava hkotlin cx.file.sites d hd.text
  have hlisted : d.edits.hasSpan literal.span = true := by
    rw [← Bool.not_eq_false, ← Edits.textAt?_eq_none_iff, hd.listed]
    exact Option.some_ne_none _
  refine ⟨htext, ?_, fun s hs => ?_⟩
  · exact hgrows.textAt?_eq (fun _ _ hstep => hstep.isFree) hd.listed (h.wide hfile)
  · rcases hgrows.hasSpan_cases hs with hs | ⟨es, hbetween, n, hn, htarget, -, hfree⟩
    · exact hd.apart s hs
    · have hshares := Edits.isFree_iff.1 hfree _ (hbetween.hasSpan hlisted)
      exact .inr (h.apart_of_target hfile (hcx ▸ hn) htarget hshares)

end Run.Constant

/-! ### All uses together -/

theorem Context.cases_first (literal : Site) (old : String) (steps : List MixinStep) :
    (∀ step ∈ steps, ∀ t, Wants literal old step t → t = old) ∨
      ∃ before step behind new, steps = before ++ step :: behind ∧ Wants literal old step new ∧
        new ≠ old ∧ ∀ s ∈ before, ∀ t, Wants literal old s t → t = old := by
  induction steps with
  | nil => exact .inl fun step hstep => absurd hstep List.not_mem_nil
  | cons step steps ih =>
    by_cases hother : ∃ new, Wants literal old step new ∧ new ≠ old
    · obtain ⟨new, hwants, hne⟩ := hother
      exact .inr ⟨[], step, steps, new, rfl, hwants, hne, fun s hs => absurd hs List.not_mem_nil⟩
    · have hone : ∀ t, Wants literal old step t → t = old := by
        intro t ht
        by_contra hne
        exact hother ⟨t, ht, hne⟩
      rcases ih with hall | ⟨before, first, behind, new, rfl, hwants, hne, hbefore⟩
      · exact .inl (List.forall_mem_cons.2 ⟨hone, hall⟩)
      · exact .inr ⟨step :: before, first, behind, new, rfl, hwants, hne,
          List.forall_mem_cons.2 ⟨hone, hbefore⟩⟩

namespace Run.Constant

variable (hfile : file.Lossless)
include hfile

theorem settled_start (h : run.Constant file literal old) : Settled file literal none
    (Template.offerAll run.templates file (.ofText file.text)) := by
  refine ⟨(Template.extends_offerAll run.templates file _).text, ?_,
    fun s hs => .inr (h.templates s hs)⟩
  rw [Option.map_none, Edits.textAt?_eq_none_iff, Bool.eq_false_iff]
  intro hs
  have := h.wide hfile
  rcases h.templates _ hs with hbefore | hbehind
  · omega
  · omega

theorem settled_of_same (h : run.Constant file literal old)
    (hsame : ∀ step ∈ (run.context file).mixinSteps, ∀ t, Wants literal old step t → t = old) :
    Settled file literal none (run.beforeWalk file).2 := by
  rw [beforeWalk, Context.renameMixins_eq]
  exact h.settled_none hfile (fun _ hs => hs) hsame (h.settled_start hfile)

theorem settled_of_first (h : run.Constant file literal old) {before behind : List MixinStep}
    (hsplit : (run.context file).mixinSteps = before ++ step :: behind)
    (hwants : Wants literal old step new) (hne : new ≠ old)
    (hbefore : ∀ s ∈ before, ∀ t, Wants literal old s t → t = old) :
    Settled file literal (some new) (run.beforeWalk file).2 := by
  have hfront : ∀ s ∈ before, s ∈ (run.context file).mixinSteps :=
    fun s hs => hsplit ▸ List.mem_append_left _ hs
  have hstart := h.settled_none hfile hfront hbefore (h.settled_start hfile)
  have hfirst := hstart.run_first (h.slice?_ne hfile hne) h.stringValue? hwants hne
  rw [beforeWalk, Context.renameMixins_eq, hsplit, List.foldl_append, List.foldl_cons]
  exact h.settled_some hfile
    (fun s hs => hsplit ▸ List.mem_append_right _ (List.mem_cons_of_mem step hs)) hfirst

/-- **The text of the first use that wants another one stands in the report.** -/
theorem spells_of_settled (h : run.Constant file literal old) (hjava : file.language = .java)
    (hd : Settled file literal (some new) (run.beforeWalk file).2) {r : Report}
    (hr : run.report file = .ok r) : run.Spells file literal.span (Quoted.literal new) := by
  have hfinal := h.settled_renameJava hfile (run.file_beforeWalk file) hjava hd
  rw [← draft_eq hjava] at hfinal
  exact spells_of_report hr (hfile.standsIn h.mem).part literal.stop_eq hfinal.apart
    (.inl hfinal.listed)

end Run.Constant

/-- The draft has the text that a use wants for the literal. -/
def Draft.Suits (d : Draft) (literal : Site) (old new : String) : Prop :=
  d.edits.textAt? literal.span = some (Quoted.literal new) ∨
    new = old ∧ d.edits.hasSpan literal.span = false

/-- Once the literal is listed, only its text suits. -/
theorem Settled.eq_of_suits (h : Settled file literal (some new) d)
    (hsuits : d.Suits literal old text) : text = new := by
  rcases hsuits with hlisted | ⟨-, hnone⟩
  · rw [h.listed] at hlisted
    exact (Quoted.literal_injective (Option.some.inj hlisted)).symm
  · rw [← Edits.textAt?_eq_none_iff, h.listed] at hnone
    exact absurd hnone (Option.some_ne_none _)

/-- **Shared constants.**  In a Java file, let a literal be one token of which nothing is replaced
but by the steps that are for it.  The first use that wants another text than the old one writes it,
and this is what stands in the report.  Where no use wants another text, none is written.  So the
literal is as all uses want it if and only if they all want the same; no use records a conflict, and
the problems that it reports do not depend on what is written. -/
theorem Run.shared_constant_iff (hjava : file.language = .java) (hfile : file.Lossless)
    (h : run.Constant file literal old) :
    let steps := (run.context file).mixinSteps
    let after := (run.beforeWalk file).2
    (∀ before step behind new, steps = before ++ step :: behind → Wants literal old step new →
      new ≠ old → (∀ s ∈ before, ∀ t, Wants literal old s t → t = old) →
      after.edits.textAt? literal.span = some (Quoted.literal new) ∧
        ∀ r, run.report file = .ok r → run.Spells file literal.span (Quoted.literal new)) ∧
    ((∀ step ∈ steps, ∀ t, Wants literal old step t → t = old) →
      after.edits.hasSpan literal.span = false) ∧
    ((∀ step ∈ steps, ∀ t, Wants literal old step t → after.Suits literal old t) ↔
      ∀ step ∈ steps, ∀ step' ∈ steps, ∀ t t', Wants literal old step t →
        Wants literal old step' t' → t = t') ∧
    ∀ step ∈ steps, ∀ t, Wants literal old step t → ∃ problems : String → List Diagnostic,
      ∀ d : Draft, (step.run d).conflicts = d.conflicts ∧
        (step.run d).diagnostics = d.diagnostics ++ problems d.text := by
  intro steps after
  refine ⟨?_, ?_, ⟨?_, ?_⟩, ?_⟩
  · intro before step behind new hsplit hwants hne hbefore
    have hd := h.settled_of_first hfile hsplit hwants hne hbefore
    exact ⟨hd.listed, fun r hr => h.spells_of_settled hfile hjava hd hr⟩
  · intro hsame
    exact Edits.textAt?_eq_none_iff.1 (h.settled_of_same hfile hsame).listed
  · intro hsuits step hstep step' hstep' t t' ht ht'
    rcases Context.cases_first literal old steps with
      hsame | ⟨before, first, behind, new, hsplit, hwants, hne, hbefore⟩
    · rw [hsame step hstep t ht, hsame step' hstep' t' ht']
    · have hd := h.settled_of_first hfile hsplit hwants hne hbefore
      rw [hd.eq_of_suits (hsuits step hstep t ht), hd.eq_of_suits (hsuits step' hstep' t' ht')]
  · intro halike step hstep t ht
    rcases Context.cases_first literal old steps with
      hsame | ⟨before, first, behind, new, hsplit, hwants, hne, hbefore⟩
    · exact .inr ⟨hsame step hstep t ht,
        Edits.textAt?_eq_none_iff.1 (h.settled_of_same hfile hsame).listed⟩
    · have hfirst : first ∈ steps := hsplit ▸ List.mem_append_right _ List.mem_cons_self
      rw [halike step hstep first hfirst t new ht hwants]
      exact .inl (h.settled_of_first hfile hsplit hwants hne hbefore).listed
  · intro step _ t ht
    obtain ⟨problems, hrun⟩ := ht.run_eq h.stringValue?
    refine ⟨problems, fun d => ?_⟩
    rw [hrun]
    obtain ⟨hdiagnostics, hconflicts⟩ := Context.quiet_replaceLiteral literal.span old t
      { d with diagnostics := d.diagnostics ++ problems d.text }
    exact ⟨hconflicts, hdiagnostics⟩

end

/-! ### A constant for two mixin classes -/

namespace Mixin

def methodOf (owner : String) : Method := ⟨.ofBinary owner, "a", "()V", false, false, []⟩

def declaring (name : String) : ClassDecl := ⟨.ofBinary name, none, [], [methodOf name], []⟩

def constant : Symbol := .field ⟨.ofBinary "M", "K", "Ljava/lang/String;"⟩

/-- A method of the given name with the annotation `@Inject(method=..)`, for a name of these tokens.
-/
def injectorFor (name : String) (tokens : List Tree) : Tree :=
  .node .methodDecl [
    .node .modifierList [.node .annotationUse [.token .at "@", .token .ident "Inject",
      .node .annotationArgs [.token .lParen "(",
        .node .annotationAttr [.token .ident "method", .token .eq "=",
          .node .referenceExpr tokens], .token .rParen ")"]]],
    .token .ident "void", .token .whitespace " ", .token .ident name, .token .lParen "(",
    .token .rParen ")", .token .lBrace "\x7b", .token .rBrace "\x7d"]

/-- The class `M` with the target `A` and the class `N` with the target `B`.  Both have an injector
for the constant of `M`. -/
def sharing : SourceFile where
  name := "M.java"
  language := .java
  text := "@Mixin(A.class)class M\x7bString K=\"a\";@Inject(method=K)void f()\x7b\x7d\x7d" ++
    "@Mixin(B.class)class N\x7b@Inject(method=M.K)void g()\x7b\x7d\x7d"
  tree := .node .sourceFile [
    .node .classDecl [targeting "A", .token .classKw "class", .token .whitespace " ",
      .token .ident "M", .token .lBrace "\x7b",
      .node .fieldDecl [.token .ident "String", .token .whitespace " ", .token .ident "K",
        .token .eq "=", .node .literal [.token .string "\"a\""], .token .semicolon ";"],
      injectorFor "f" [.token .ident "K"], .token .rBrace "\x7d"],
    classWith (targeting "B") "N"
      (injectorFor "g" [.token .ident "M", .token .dot ".", .token .ident "K"])]
  symbols := .ofList [((.classDecl, .ofWidth 0 64), .classType (.ofBinary "M")),
    ((.reference, .ofWidth 7 1), .classType (.ofBinary "A")),
    ((.fieldDecl, .ofWidth 23 13), constant), ((.referenceExpr, .ofWidth 51 1), constant),
    ((.classDecl, .ofWidth 64 53), .classType (.ofBinary "N")),
    ((.reference, .ofWidth 71 1), .classType (.ofBinary "B")),
    ((.referenceExpr, .ofWidth 102 3), constant)]
  types := .empty
  scope := ⟨.empty, .ofList [declaring "A", declaring "B"]⟩

/-- A run in which the method of `A` becomes `b`, and that of `B` gets a name of its own. -/
def sharedRun (new : String) : Run where
  renames := (Renames.empty.declare "A" "A" fun c => c.addMethod ⟨"a", some "()V"⟩ "b").declare
    "B" "B" fun c => c.addMethod ⟨"a", some "()V"⟩ new
  templates := []
  settings := {}

def constantLiteral : Site := sharing.sites.get ⟨9, by decide +kernel⟩

theorem injectedName_sharing {cx : Context} {r : ClassRename} {owner new : String}
    (howner : owner = "A" ∨ owner = "B") (hfile : cx.file = sharing)
    (hmixin : cx.mixins.get? owner = none) (hr : cx.renames.find? owner = some r)
    (hnew : r.method? "a" "()V" = some new) (hcount : r.countRenamedTo new = 1) :
    cx.injectedName r (declaring owner) "a" = new := by
  have hsupertypes : sharing.scope.supertypes owner = [] := by
    rcases howner with rfl | rfl
    · decide +kernel
    · decide +kernel
  have hqualified : (methodOf owner).owner.qualified = owner := by
    rcases howner with rfl | rfl
    · decide +kernel
    · decide +kernel
  have hancestry : cx.file.scope.ancestry (methodOf owner).owner.binary = [owner] := by
    show cx.file.scope.ancestry owner = [owner]
    rw [hfile, Scope.ancestry, Scope.reach_cons, if_pos List.mem_cons_self, hsupertypes]
    exact congrArg _ (Scope.reach_nil _ _)
  have hname : cx.methodName? (methodOf owner) = some new := by
    rw [Context.methodName?, hqualified, hmixin]
    dsimp only
    rw [Context.inheritedName?, hancestry, List.findSome?_singleton, hr]
    exact hnew
  have hinjected : Context.injected? (declaring owner) "a" = some (methodOf owner) := by
    have hsplit : Context.splitDescriptor "a" = ("a", none) := by decide +kernel
    rw [Context.injected?, hsplit]
    rfl
  have hsplit : Context.splitDescriptor "a" = ("a", none) := by decide +kernel
  have hfinal : ((some (methodOf owner)).bind cx.methodName?).getD "a" = new := by
    rw [Option.bind_some, hname]
    rfl
  rw [Context.injectedName, hinjected, hsplit, Context.injectedText, hfinal, hcount]
  rfl

theorem lossless_sharing : sharing.Lossless := ⟨_, rfl, by decide +kernel⟩

theorem run_injector {cx : Context} {owner : String} {mixin method use attr value : Site}
    {target : MixinTarget} (hdecl : target.decl? = some (declaring owner))
    (hliteral : cx.injectedLiteral? value = some constantLiteral) (d : Draft) :
    (MixinStep.member cx ⟨mixin, target, .inject method use attr value⟩).run d =
      d.replaceLiteral constantLiteral.span "a"
        (cx.injectedName target.renames (declaring owner) "a") := by
  have hone : ¬ ((Context.splitDescriptor "a").2 = none ∧
      1 < ((declaring owner).methodsNamed (Context.splitDescriptor "a").1).length) := by
    have hsplit : Context.splitDescriptor "a" = ("a", none) := by decide +kernel
    have hmethods : (declaring owner).methodsNamed "a" = [methodOf owner] := rfl
    rw [hsplit, hmethods, List.length_singleton]
    decide
  have htext : constantLiteral.stringValue? = some "a" := by decide +kernel
  rw [MixinStep.run, MemberTask.run, hdecl]
  dsimp only
  rw [Context.renameInjected_eq d hliteral htext, if_neg hone]

/-- There is a step for either injector.  Each is for the literal of the constant and does nothing
but replace it. -/
theorem steps_sharing {new : String} (hnew : new = "b" ∨ new = "c") :
    ∃ first second : MixinStep,
      ((sharedRun new).context sharing).mixinSteps = [first, second] ∧
      Context.Wants constantLiteral "a" first "b" ∧ Context.Wants constantLiteral "a" second new ∧
      (∀ d, first.run d = d.replaceLiteral constantLiteral.span "a" "b") ∧
      ∀ d, second.run d = d.replaceLiteral constantLiteral.span "a" new := by
  obtain ⟨cx₁, mixin₁, method₁, use₁, attr₁, value₁, target₁, cx₂, mixin₂, method₂, use₂, attr₂, value₂,
      target₂, hsteps, hfile₁, hfile₂, hmixins₁, hmixins₂, hdecl₁, hdecl₂, hr₁, hr₂, hname₁, hname₂,
      hcount₁, hcount₂, hliteral₁, hliteral₂⟩ :
      ∃ (cx₁ : Context) (mixin₁ method₁ use₁ attr₁ value₁ : Site) (target₁ : MixinTarget)
        (cx₂ : Context) (mixin₂ method₂ use₂ attr₂ value₂ : Site) (target₂ : MixinTarget),
        ((sharedRun new).context sharing).mixinSteps =
          [.member cx₁ ⟨mixin₁, target₁, .inject method₁ use₁ attr₁ value₁⟩,
            .member cx₂ ⟨mixin₂, target₂, .inject method₂ use₂ attr₂ value₂⟩] ∧
        cx₁.file = sharing ∧ cx₂.file = sharing ∧ cx₁.mixins.get? "A" = none ∧
        cx₂.mixins.get? "B" = none ∧ target₁.decl? = some (declaring "A") ∧
        target₂.decl? = some (declaring "B") ∧ cx₁.renames.find? "A" = some target₁.renames ∧
        cx₂.renames.find? "B" = some target₂.renames ∧
        target₁.renames.method? "a" "()V" = some "b" ∧ target₂.renames.method? "a" "()V" = some new ∧
        target₁.renames.countRenamedTo "b" = 1 ∧ target₂.renames.countRenamedTo new = 1 ∧
        cx₁.injectedLiteral? value₁ = some constantLiteral ∧
        cx₂.injectedLiteral? value₂ = some constantLiteral := by
    rcases hnew with rfl | rfl
    · exact ⟨_, _, _, _, _, _, _, _, _, _, _, _, _, _, rfl, rfl, rfl, rfl, rfl, rfl, rfl, rfl, rfl, rfl,
        rfl, rfl, rfl, rfl, rfl⟩
    · exact ⟨_, _, _, _, _, _, _, _, _, _, _, _, _, _, rfl, rfl, rfl, rfl, rfl, rfl, rfl, rfl, rfl, rfl,
        rfl, rfl, rfl, rfl, rfl⟩
  have hfirst := injectedName_sharing (.inl rfl) hfile₁ hmixins₁ hr₁ hname₁ hcount₁
  have hsecond := injectedName_sharing (.inr rfl) hfile₂ hmixins₂ hr₂ hname₂ hcount₂
  refine ⟨_, _, hsteps, ?_, ?_, fun d => ?_, fun d => ?_⟩
  · rw [← hfirst]
    exact .mk hdecl₁ hliteral₁
  · rw [← hsecond]
    exact .mk hdecl₂ hliteral₂
  · rw [run_injector hdecl₁ hliteral₁, hfirst]
  · rw [run_injector hdecl₂ hliteral₂, hsecond]

theorem constant_sharing {new : String} (hnew : new = "b" ∨ new = "c") :
    (sharedRun new).Constant sharing constantLiteral "a" := by
  obtain ⟨first, second, hsteps, hfirst, hsecond, -, -⟩ := steps_sharing hnew
  have htoken : constantLiteral.children = [.token .string "\"a\""] := rfl
  constructor
  case mem => exact List.get_mem ..
  case token => exact ⟨"\"a\"", htoken, by decide +kernel⟩
  case templates =>
    have htemplates : (sharedRun new).templates = [] := rfl
    rw [htemplates, Template.offerAll_nil]
    intro s hs
    have hempty : Edits.empty.hasSpan s = false := rfl
    rw [Draft.ofText, hempty] at hs
    exact absurd hs Bool.false_ne_true
  case others =>
    rw [hsteps]
    intro step hstep hnone
    rcases List.mem_pair.1 hstep with rfl | rfl
    · exact absurd hfirst (hnone "b")
    · exact absurd hsecond (hnone new)

/-- What a run makes of the file when `A` and `B` want the same name. -/
theorem same_name_suits :
    (sharedRun "b").Constant sharing constantLiteral "a" ∧
    ∀ step ∈ ((sharedRun "b").context sharing).mixinSteps,
      ∀ t, Context.Wants constantLiteral "a" step t →
        ((sharedRun "b").beforeWalk sharing).2.Suits constantLiteral "a" t := by
  have hnew : "b" = "b" ∨ "b" = "c" := .inl rfl
  obtain ⟨first, second, hsteps, hfirst, hsecond, -, -⟩ := steps_sharing hnew
  have hconstant := constant_sharing hnew
  obtain ⟨-, -, hiff, -⟩ := Run.shared_constant_iff rfl lossless_sharing hconstant
  refine ⟨hconstant, hiff.2 ?_⟩
  rw [hsteps]
  intro step hstep step' hstep' t t' ht ht'
  have hb : ∀ s ∈ [first, second], ∀ t, Context.Wants constantLiteral "a" s t → t = "b" := by
    intro s hs t ht
    rcases List.mem_pair.1 hs with rfl | rfl
    · exact ht.unique hfirst
    · exact ht.unique hsecond
  rw [hb step hstep t ht, hb step' hstep' t' ht']

def shared : Report where
  text := "@Mixin(A.class)class M\x7bString K=\"b\";@Inject(method=K)void f()\x7b\x7d\x7d" ++
    "@Mixin(B.class)class N\x7b@Inject(method=M.K)void g()\x7b\x7d\x7d"
  diagnostics := []
  conflicts := []

/-- **The second use is passed over.**  `B` has another new name than `A`, the literal has that of
`A`, and nothing is reported. -/
theorem second_use_passed_over :
    (sharedRun "c").report sharing = .ok shared ∧
    ¬ ∀ (run : Run) (file : SourceFile) (literal : Site) (old : String) (r : Report),
      file.language = .java → file.Lossless → run.Constant file literal old →
      run.report file = .ok r → r.diagnostics = [] → r.conflicts = [] →
      ∀ step ∈ (run.context file).mixinSteps,
        ∀ t, Context.Wants literal old step t → (run.beforeWalk file).2.Suits literal old t := by
  have hnew : "c" = "b" ∨ "c" = "c" := .inr rfl
  obtain ⟨first, second, hsteps, hfirst, hsecond, hfirstRun, hsecondRun⟩ := steps_sharing hnew
  have htemplates : (sharedRun "c").templates = [] := rfl
  have hreport : (sharedRun "c").report sharing = .ok shared := by
    rw [Run.report_of_no_templates htemplates, Run.draft_eq rfl, Run.beforeWalk, htemplates,
      Template.offerAll_nil, Context.renameMixins_eq, hsteps, List.foldl_cons, List.foldl_cons,
      List.foldl_nil, hfirstRun, hsecondRun, Context.fst_renameMixins]
    decide +kernel
  refine ⟨hreport, fun hlaw => ?_⟩
  have hconstant := constant_sharing hnew
  have hmem : second ∈ [first, second] := List.mem_cons_of_mem _ List.mem_cons_self
  have hsuits := hlaw (sharedRun "c") sharing constantLiteral "a" shared rfl lossless_sharing hconstant
    hreport rfl rfl second (hsteps ▸ hmem) "c" hsecond
  have hsplit : ((sharedRun "c").context sharing).mixinSteps = [] ++ first :: [second] := hsteps
  have hb := hconstant.settled_of_first lossless_sharing hsplit hfirst (by decide)
    fun _ hs => absurd hs List.not_mem_nil
  exact absurd (hb.eq_of_suits hsuits) (by decide)

end Mixin

end SourceRename
