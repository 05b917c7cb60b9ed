import SourceRename.Proofs.Fault
import SourceRename.Proofs.Table
import SourceRename.Run.Basic

/-!
# What a run says of its files

A run makes a report of every file, and lists the reports under the names of the files:

    files      F₁  G  F₂        two of them with the name `F`
    reports    F: that of F₂
               G: that of G

A name stands where it first comes up, and with it the report of the last file that has it
(`outcome_by_name`).  If all names are different, these are the reports of all files in their order,
and the run succeeds exactly if no file has errors.  If not, the report of an earlier file is gone,
and its errors with it (`earlier_errors_gone`). -/

namespace SourceRename.Run

variable {run : Run} {files : List SourceFile} {reports : SourceFile → Report}

/-- Of the files with its name, this is the last one. -/
def IsLast (files : List SourceFile) (file : SourceFile) : Prop :=
  ∃ before behind, files = before ++ file :: behind ∧ file.name ∉ behind.map (·.name)

theorem isLast_of_nodup (hnodup : (files.map (·.name)).Nodup) {file : SourceFile}
    (hfile : file ∈ files) : IsLast files file := by
  obtain ⟨before, behind, rfl⟩ := List.append_of_mem hfile
  refine ⟨before, behind, rfl, ?_⟩
  rw [List.map_append, List.map_cons, List.nodup_append] at hnodup
  exact (List.nodup_cons.1 hnodup.2.1).1

/-! ### The table of the reports -/

def tableOf (reports : SourceFile → Report) (files : List SourceFile) : Table String Report :=
  .ofList (files.map fun file => (file.name, reports file))

theorem map_name (reports : SourceFile → Report) (files : List SourceFile) :
    (files.map fun file => (file.name, reports file)).map Prod.fst = files.map (·.name) := by
  rw [List.map_map]
  rfl

theorem outcome_eq_ok (hreports : ∀ file ∈ files, run.report file = .ok (reports file)) :
    run.outcome files = .ok ⟨tableOf reports files⟩ := by
  have hpairs : files.mapM (fun file => return (file.name, ← run.report file)) =
      (.ok (files.map fun file => (file.name, reports file)) : Except Fault _) := by
    apply mapM_eq_ok_of_forall
    intro file hfile
    rw [hreports file hfile]
    rfl
  rw [outcome, hpairs]
  rfl

theorem get?_tableOf {file : SourceFile} (hlast : IsLast files file) :
    (tableOf reports files).get? file.name = some (reports file) := by
  obtain ⟨before, behind, rfl, hlater⟩ := hlast
  rw [tableOf, List.map_append, List.map_cons]
  apply Table.get?_ofList_of_last
  rw [map_name]
  exact hlater

theorem mem_tableOf {e : String × Report} (h : e ∈ (tableOf reports files).entries) :
    ∃ file ∈ files, (file.name, reports file) = e :=
  List.mem_map.1 (Table.mem_of_mem_entries_ofList h)

theorem isSuccess_iff (o : Outcome) :
    o.isSuccess = true ↔ ∀ e ∈ o.reports.entries, e.2.hasErrors = false := by
  rw [Outcome.isSuccess, Table.values, List.all_eq_true]
  constructor
  · intro h e he
    have hnot := h e.2 (List.mem_map_of_mem he)
    rwa [Bool.not_eq_true'] at hnot
  · intro h r hr
    obtain ⟨e, he, rfl⟩ := List.mem_map.1 hr
    rw [h e he]
    rfl

theorem isSuccess_of_forall (h : ∀ file ∈ files, (reports file).hasErrors = false) :
    Outcome.isSuccess ⟨tableOf reports files⟩ = true := by
  rw [isSuccess_iff]
  intro e he
  obtain ⟨file, hfile, rfl⟩ := mem_tableOf he
  exact h file hfile

theorem hasErrors_of_isSuccess (h : Outcome.isSuccess ⟨tableOf reports files⟩ = true)
    {file : SourceFile} (hlast : IsLast files file) : (reports file).hasErrors = false :=
  (isSuccess_iff _).1 h _ (Table.get?_eq_some_iff.1 (get?_tableOf hlast))

/-- **The reports by name.**  If no file stops the run, there is an outcome.  It has one report for
each name, in the order in which the names come up, and that is the report of the last file with the
name.  If no file has errors, the run succeeds; and if it succeeds, no file has errors that is the
last one of its name.  So for files with different names there is one report for each file, in the
order of the files, and the run succeeds exactly if none of them has errors. -/
theorem outcome_by_name (hreports : ∀ file ∈ files, run.report file = .ok (reports file)) :
    ∃ o, run.outcome files = .ok o ∧
      o.reports.keys = (files.map (·.name)).eraseDups ∧
      (∀ file, IsLast files file → o.reports.get? file.name = some (reports file)) ∧
      ((∀ file ∈ files, (reports file).hasErrors = false) → o.isSuccess = true) ∧
      (o.isSuccess = true → ∀ file, IsLast files file → (reports file).hasErrors = false) ∧
      ((files.map (·.name)).Nodup →
        o.reports.entries = files.map (fun file => (file.name, reports file)) ∧
        (o.isSuccess = true ↔ ∀ file ∈ files, (reports file).hasErrors = false)) := by
  refine ⟨⟨tableOf reports files⟩, outcome_eq_ok hreports, ?_, fun file => get?_tableOf,
    isSuccess_of_forall, fun hsuccess file => hasErrors_of_isSuccess hsuccess, fun hnodup => ⟨?_, ?_⟩⟩
  · show (tableOf reports files).keys = _
    rw [tableOf, Table.keys_ofList, map_name]
  · apply Table.entries_ofList
    rw [map_name]
    exact hnodup
  · constructor
    · intro hsuccess file hfile
      exact hasErrors_of_isSuccess hsuccess (isLast_of_nodup hnodup hfile)
    · exact isSuccess_of_forall

/-! ### Two files with one name -/

/-- A file that uses the field `a` of `A` without a qualifier. -/
def implicitUse : SourceFile where
  name := "F.java"
  language := .java
  text := "a"
  tree := .node .sourceFile [.node .referenceExpr [.token .ident "a"]]
  symbols := .ofList [((.referenceExpr, .ofWidth 0 1), .field ⟨.ofBinary "A", "a", "I"⟩)]
  types := .empty
  scope := ⟨.empty, .empty⟩

def blank (name : String) : SourceFile :=
  ⟨name, .java, "", .node .sourceFile [], .empty, .empty, ⟨.empty, .empty⟩⟩

def fieldRun : Run where
  renames := Renames.empty.declare "A" "A" fun c => c.addField "a" "b"
  templates := []
  settings := {}

def fieldReports (file : SourceFile) : Report :=
  if file.text = "a" then ⟨"b", [(Problem.implicitField "a").locate "a" 0], []⟩ else ⟨"", [], []⟩

/-- The last of the two files with one name has errors, and the run fails. -/
theorem later_errors_count :
    (∀ file ∈ [blank "F.java", blank "G.java", implicitUse],
      fieldRun.report file = .ok (fieldReports file)) ∧
    ∃ o, fieldRun.outcome [blank "F.java", blank "G.java", implicitUse] = .ok o ∧
      o.reports.keys = ["F.java", "G.java"] ∧
      o.reports.get? "F.java" = some (fieldReports implicitUse) ∧ o.isSuccess = false := by
  have hreports : ∀ file ∈ [blank "F.java", blank "G.java", implicitUse],
      fieldRun.report file = .ok (fieldReports file) := by decide +kernel
  obtain ⟨o, houtcome, hkeys, hlasts, -, hsuccess, -⟩ := outcome_by_name hreports
  have hlast : IsLast [blank "F.java", blank "G.java", implicitUse] implicitUse :=
    ⟨[blank "F.java", blank "G.java"], [], rfl, List.not_mem_nil⟩
  refine ⟨hreports, o, houtcome, hkeys.trans (by decide +kernel), hlasts _ hlast, ?_⟩
  rw [Bool.eq_false_iff]
  intro hall
  exact absurd (hsuccess hall _ hlast) (by decide +kernel)

/-- **The errors of the first of two files with one name are gone**, and so is its report. -/
theorem earlier_errors_gone :
    (fieldReports implicitUse).hasErrors = true ∧
    (∃ o, fieldRun.outcome [implicitUse, blank "F.java"] = .ok o ∧
      o.reports.entries = [("F.java", ⟨"", [], []⟩)] ∧ o.isSuccess = true) ∧
    ¬ ∀ (run : Run) (files : List SourceFile) (reports : SourceFile → Report),
      (∀ file ∈ files, run.report file = .ok (reports file)) →
      ∃ o, run.outcome files = .ok o ∧
        o.reports.entries = files.map (fun file => (file.name, reports file)) ∧
        (o.isSuccess = true ↔ ∀ file ∈ files, (reports file).hasErrors = false) := by
  have hreports : ∀ file ∈ [implicitUse, blank "F.java"],
      fieldRun.report file = .ok (fieldReports file) := by decide +kernel
  have hentries : (tableOf fieldReports [implicitUse, blank "F.java"]).entries =
      [("F.java", ⟨"", [], []⟩)] := by decide +kernel
  refine ⟨by decide +kernel, ⟨_, outcome_eq_ok hreports, hentries, by decide +kernel⟩, fun h => ?_⟩
  obtain ⟨o, houtcome, hboth, -⟩ := h fieldRun _ fieldReports hreports
  rw [outcome_eq_ok hreports, Except.ok.injEq] at houtcome
  subst houtcome
  have hlength := congrArg List.length (hentries.symm.trans hboth)
  exact absurd hlength (by decide)

end SourceRename.Run
