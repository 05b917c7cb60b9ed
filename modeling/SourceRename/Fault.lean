import SourceRename.Syntax.Outline

/-!
# Failures

What stops the work on a file or a run.  Everything else that can be wrong with a file is a
`Diagnostic` and does not stop anything.
-/

namespace SourceRename

inductive TemplateError
  | unnamedParameter
  | noBody
  | notOneStatement (found : Nat)
  | nothingReturned
  | captureCount (captured used : Nat)
deriving DecidableEq

def TemplateError.message : TemplateError → String
  | .unnamedParameter => "unnamed parameter"
  | .noBody => "pattern method has no body"
  | .notOneStatement found => s!"expected a single statement, found {found}"
  | .nothingReturned => "pattern returns nothing"
  | .captureCount captured used =>
    s!"pattern captures {captured} parameters but its replacement uses {used}"

inductive LibraryError
  | unknownFile
  | otherText
deriving DecidableEq

def LibraryError.message : LibraryError → String
  | .unknownFile => "no resolved tree available"
  | .otherText => "source text differs from the resolved tree"

/-- What stops the work on a file or a run. -/
inductive Fault
  /-- The declared nodes do not fit the text. -/
  | malformedTree (file : String) (reason : OutlineError)
  /-- A file cannot be resolved. -/
  | unresolved (file : String) (reason : LibraryError)
  /-- A template cannot be used. -/
  | invalidTemplate (name : String) (reason : TemplateError)
  /-- A template has no replacement. -/
  | missingReplacement (name : String)
  /-- A text was to be cut inside a character, behind its end or back to front. -/
  | badCut
deriving DecidableEq

def Fault.message : Fault → String
  | .malformedTree file reason => s!"Malformed tree in {file}: " ++ reason.message
  | .unresolved file reason => s!"Resolution failed for {file}: " ++ reason.message
  | .invalidTemplate name reason => s!"Invalid pattern {name}: " ++ reason.message
  | .missingReplacement name => s!"Missing replacement for pattern {name}"
  | .badCut => "text cut inside a character"

end SourceRename
