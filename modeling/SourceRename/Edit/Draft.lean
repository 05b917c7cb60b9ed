import SourceRename.Edit.Plan
import SourceRename.Edit.Diagnostic
import SourceRename.Fault
import SourceRename.Text.Shown

/-!
# The work on one file

A `Draft` gathers the replacements for a text, what is wrong with it, and the replacements that
were refused.  `Draft.result` applies what was gathered and gives a `Report`.
-/

namespace SourceRename

/-- What has been gathered for a text so far. -/
structure Draft where
  text : String
  edits : Edits
  diagnostics : List Diagnostic
  conflicts : List Conflict

/-- The new text of a file and what went wrong on the way. -/
structure Report where
  text : String
  diagnostics : List Diagnostic
  conflicts : List Conflict
deriving DecidableEq

namespace Conflict

def message (c : Conflict) : String :=
  let existing := match c.existing with
    | some span => s!"Some({span.text})"
    | none => "None"
  s!"Conflicting edit {Shown.quoted c.text} at {c.span.text} overlaps {existing}"

end Conflict

namespace Draft

def ofText (text : String) : Draft := ⟨text, .empty, [], []⟩

def isFree (d : Draft) (span : Span) : Bool := d.edits.isFree span

def queue (d : Draft) (span : Span) (text : String) : Draft :=
  { d with edits := d.edits.queue span text }

/-- Queues a replacement, unless the text is there already. -/
def replace (d : Draft) (span : Span) (text : String) : Draft :=
  if slice? d.text.toList span = some text.toList then d else d.queue span text

def report (d : Draft) (offset : Nat) (problem : Problem) : Draft :=
  { d with diagnostics := d.diagnostics ++ [problem.locate d.text offset] }

/-- Records a refused replacement, with a warning at its start. -/
def refuse (d : Draft) (c : Conflict) : Draft :=
  let d := d.report c.span.start (.conflict c.message)
  { d with conflicts := d.conflicts ++ [c] }

/-- Refuses a replacement because of those queued already. -/
def conflict (d : Draft) (span : Span) (text : String) : Draft :=
  d.refuse ⟨span, text, d.edits.firstOverlap? span⟩

def result (d : Draft) : Except Fault Report :=
  match d.edits.applyTo? d.text with
  | some (text, conflicts) =>
    let d := conflicts.foldl refuse d
    .ok ⟨text, d.diagnostics, d.conflicts⟩
  | none => .error .badCut

end Draft

namespace Report

def errors (r : Report) : List Diagnostic := r.diagnostics.filter (·.isError)

def hasErrors (r : Report) : Bool := r.diagnostics.any (·.isError)

end Report

end SourceRename
