import SourceRename.Rename.File
import SourceRename.Run.Settings
import SourceRename.Source.Library
import SourceRename.Template.Apply
import SourceRename.Template.Read

/-!
# Runs over many files

A `Run` holds the rename tables, the templates and the settings of a run.  In each file the
templates are applied first and names are renamed then, both on the same draft.  An `Outcome`
lists the reports in the order of the files; a file given twice keeps its first place and its last
report.
-/

namespace SourceRename

/-- The reports of a run by file name. -/
structure Outcome where
  reports : Table String Report

namespace Outcome

def text? (o : Outcome) (name : String) : Option String := (o.reports.get? name).map (·.text)

def errors (o : Outcome) : List (String × Diagnostic) :=
  o.reports.entries.flatMap fun e => e.2.errors.map (e.1, ·)

def isSuccess (o : Outcome) : Bool := o.reports.values.all fun r => !r.hasErrors

end Outcome

/-- Rename tables, templates and settings. -/
structure Run where
  renames : Renames
  templates : List Template
  settings : Settings

namespace Run

/-- Reads the templates of two sources and adds them.  The answer is how many there are; without a
mark in the settings none are read. -/
def addTemplates (run : Run) (library : Library) (before after : Source) :
    Except Fault (Nat × Run) :=
  match run.settings.templateMark? with
  | none => .ok (0, run)
  | some mark => do
    let before ← library.resolve before
    let after ← library.resolve after
    let read ← Template.readAll before after mark
    return (read.length, { run with templates := run.templates ++ read })

/-- Applies the templates to a file and renames it. -/
def report (run : Run) (file : SourceFile) : Except Fault Report := do
  let d ← Template.applyAll run.templates file (.ofText file.text)
  (Context.ofFile file run.renames run.settings.forbidImplicit).result d

def outcome (run : Run) (files : List SourceFile) : Except Fault Outcome := do
  let reports ← files.mapM fun file => return (file.name, ← run.report file)
  return ⟨.ofList reports⟩

/-- The reports of the resolved files of sources; the first source that cannot be resolved stops
the run. -/
def outcomeOfSources (run : Run) (library : Library) (sources : List Source) :
    Except Fault Outcome := do
  run.outcome (← sources.mapM library.resolve)

end Run

end SourceRename
