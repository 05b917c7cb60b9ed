import SourceRename.Proofs.Mixin.Places
import SourceRename.Proofs.Rename.KotlinOrder
import SourceRename.Proofs.Rename.Writes
import SourceRename.Proofs.Template.Failures
import SourceRename.Run.Basic

/-!
# The passes over a file

Templates, mixin classes and the walks over Java and Kotlin files all work on one draft.  None of
them takes back what another one has queued (`Draft.Extends`), and the context stays that of the
file.  So the text to be changed is that of the file in the end (`Run.text_draft`), and what is
listed at any time is listed in the end (`Context.extends_renameAll`).

Accessors of mixin classes and functions of Kotlin files are changed whether or not their spans are
free.  What is said of all spans that the passes queue is where they are: nearby a node of the file,
or behind one (`SourceFile.Placed`).  Only templates write elsewhere. -/

namespace SourceRename

/-- A template whose tree is not a parameter matches nodes of its own kind only, and nothing is
captured at other ones. -/
theorem Template.find_of_kind {t : Template} {file : SourceFile} {site : Site}
    (hroot : t.hole? t.root = none) (hkind : t.root.kind ≠ site.kind) :
    t.find file site = .ok none := by
  have hattempt : t.attempt file [] t.root site = (⟨[], [], []⟩, false) := by
    rw [attempt_of_not_align (by rw [align, if_neg hkind]), begun, if_neg hkind]
  rw [find, trace_of_attempt hroot hattempt]
  rfl

theorem Template.find?_eq_none_of_kind {t : Template} {file : SourceFile} {site : Site}
    (hroot : t.hole? t.root = none) (hkind : t.root.kind ≠ site.kind) :
    t.find? file site = none :=
  find_eq_ok_none (find_of_kind hroot hkind)

abbrev SourceFile.nearby (f : SourceFile) : Edits → Span → Prop :=
  fun _ s => ∃ site ∈ f.sites, site.Nearby s

/-- The span is nearby a node of the file, or the empty one behind it. -/
def SourceFile.Placed (f : SourceFile) (s : Span) : Prop :=
  (∃ site ∈ f.sites, site.Nearby s) ∨ ∃ site ∈ f.sites, s = .empty site.span.stop

theorem SourceFile.AtNode.placed {f : SourceFile} {s : Span} (h : f.AtNode s) : f.Placed s := by
  obtain ⟨site, hsite, rfl | rfl⟩ := h
  · exact .inl ⟨site, hsite, .whole⟩
  · exact .inr ⟨site, hsite, rfl⟩

namespace Context

variable {cx : Context}

open SourceFile (nearby)

/-! ### Names -/

theorem extends_renameJava (cx : Context) (d : Draft) :
    d.Extends (nearby cx.file) (cx.renameJava d) := by
  refine .foldl (fun d site hsite => ?_) d
  rw [visitJava]
  split
  · exact (cx.extends_renameSite site d).mono fun _ _ h => ⟨site, hsite, h.nearby⟩
  · exact .refl d

theorem extends_visit (cx : Context) (site : Site) (d : Draft) :
    d.Extends site.Allows (cx.visitKotlin d site) := by
  rw [visitKotlin]
  split
  · exact cx.extends_renameSite site d
  · split
    · exact cx.extends_renameSite site d
    · exact .refl d
  · exact .refl d

/-- **A row of visits** queues what the nodes of the row allow. -/
theorem extends_visits (cx : Context) (sites : List Site) (d : Draft) :
    d.Extends (fun es s => ∃ q ∈ sites, q.Allows es s) (sites.foldl cx.visitKotlin d) :=
  .foldl (fun d q hq => (cx.extends_visit q d).mono fun _ _ h => ⟨q, hq, h⟩) d

theorem extends_renameKotlin (cx : Context) (d : Draft) :
    d.Extends (nearby cx.file) (cx.renameKotlin d) :=
  (cx.extends_visits _ d).mono fun _ _ ⟨q, hq, h⟩ =>
    ⟨q, Site.mem_preorder_of_mem_kotlinOrder hq, h.nearby⟩

/-- **What is queued when the names are about to be renamed is listed in the end**, and what
renaming adds is placed at nodes of the file. -/
theorem extends_renameAll (cx : Context) (d : Draft) :
    d.Extends (fun _ s => cx.file.Placed s) (cx.renameAll d) := by
  rw [renameAll]
  split
  · obtain ⟨hfile, hmixins⟩ := cx.extends_renameMixins d
    have hjava := (cx.renameMixins d).1.extends_renameJava (cx.renameMixins d).2
    rw [hfile] at hjava
    exact (hmixins.mono fun _ _ h => h.placed).trans (hjava.mono fun _ _ h => .inl h)
  · exact (cx.extends_renameKotlin d).mono fun _ _ h => .inl h

end Context

/-! ### Reports -/

namespace Run

/-- What templates, mixin classes and names leave queued in a file. -/
def draft (run : Run) (file : SourceFile) : Draft :=
  (Context.ofFile file run.renames run.settings.forbidImplicit).renameAll
    (Template.offerAll run.templates file (.ofText file.text))

/-- The context of a Java file and what is queued in it when its references are about to be
renamed: the changes of templates and those in mixin classes. -/
def beforeWalk (run : Run) (file : SourceFile) : Context × Draft :=
  (Context.ofFile file run.renames run.settings.forbidImplicit).renameMixins
    (Template.offerAll run.templates file (.ofText file.text))

variable {run : Run} {file : SourceFile}

theorem file_beforeWalk (run : Run) (file : SourceFile) : (run.beforeWalk file).1.file = file :=
  (Context.extends_renameMixins _ _).1

theorem text_draft (run : Run) (file : SourceFile) : (run.draft file).text = file.text :=
  (Context.extends_renameAll _ _).text.trans (Template.extends_offerAll run.templates file _).text

theorem draft_eq (hjava : file.language = .java) :
    run.draft file = (run.beforeWalk file).1.renameJava (run.beforeWalk file).2 := by
  have hofFile : (Context.ofFile file run.renames run.settings.forbidImplicit).file = file := rfl
  rw [draft, Context.renameAll, hofFile, hjava]
  rfl

/-- **A report is that of the draft**, where the templates cut no text inside a character. -/
theorem report_eq (run : Run) (file : SourceFile) : run.report file =
    if Template.intact run.templates file then (run.draft file).result else .error .badCut := by
  rw [report, Template.applyAll_eq]
  split <;> rfl

theorem report_of_intact (h : Template.intact run.templates file = true) :
    run.report file = (run.draft file).result := by
  rw [report_eq, if_pos h]

theorem report_of_no_templates (h : run.templates = []) :
    run.report file = (run.draft file).result :=
  report_of_intact (h ▸ Template.intact_nil file)

theorem report_eq_ok_iff {r : Report} : run.report file = .ok r ↔
    Template.intact run.templates file = true ∧ (run.draft file).result = .ok r := by
  rw [report_eq]
  split
  · next h => simp [h]
  · next h => simp [h]

/-- There is a report where the templates come to their end and what is taken can be cut out. -/
theorem exists_report_iff : (∃ r, run.report file = .ok r) ↔
    (∃ d, Template.applyAll run.templates file (.ofText file.text) = .ok d) ∧
      ∀ x ∈ ((run.draft file).edits.plan file.text.utf8ByteSize).applied,
        Cut file.text.toList x.span.start ∧ Cut file.text.toList x.span.stop := by
  have hresult := (run.draft file).exists_result_iff
  rw [text_draft] at hresult
  rw [← hresult]
  simp only [report_eq_ok_iff, Template.applyAll_eq_ok_iff, exists_and_left, exists_eq', and_true]

theorem spliced_of_report {r : Report} (h : run.report file = .ok r) :
    Spliced 0 file.text.toList ((run.draft file).edits.plan file.text.utf8ByteSize).applied
      r.text.toList := by
  have hspliced := Draft.spliced_of_result (report_eq_ok_iff.1 h).2
  rwa [text_draft] at hspliced

end Run

end SourceRename
