import SourceRename.Text.Position

/-!
# Problems found in a file

A diagnostic has a position, a severity, perhaps a code, and a message.  Errors make a file count
as failed; warnings do not.
-/

namespace SourceRename

inductive Severity
  | error | warning
deriving DecidableEq

structure Diagnostic where
  position : Position
  severity : Severity
  code : Option String
  message : String
deriving DecidableEq

namespace Diagnostic

def isError (d : Diagnostic) : Bool := d.severity == .error

/-- Lines and columns are numbered in 32 bits. -/
def numberLimit : Nat := 0x100000000

/-- The number behind another one; zero follows the last. -/
def successor (n : Nat) : Nat := (n + 1) % numberLimit

/-- `line:column: message`, counted from one. -/
def text (d : Diagnostic) : String :=
  let line := successor d.position.line
  let column := successor d.position.column
  s!"{line}:{column}: {d.message}"

end Diagnostic

/-- What can be wrong with a file. -/
inductive Problem
  /-- An injector names a method of which there are several. -/
  | ambiguousTarget (name : String) (candidates : List String)
  /-- A renamed field is used without a qualifier. -/
  | implicitField (field : String)
  /-- Nothing says what an accessor method stands for. -/
  | unknownTarget (method : String)
  /-- A replacement was refused. -/
  | conflict (message : String)

namespace Problem

def severity : Problem → Severity
  | .conflict _ => .warning
  | _ => .error

def code : Problem → String
  | .ambiguousTarget _ _ => "E0001"
  | .implicitField _ => "E0002"
  | .unknownTarget _ => "E0003"
  | .conflict _ => "W0001"

def message : Problem → String
  | .ambiguousTarget name candidates =>
    let listed := String.intercalate ", " (candidates.map fun c => s!"\"{c}\"")
    s!"Ambiguous mixin method \"{name}\" may refer to any of: {listed}"
  | .implicitField field =>
    s!"Implicit member reference to remapped field \"{field}\". " ++
      "This can cause issues if the remapped reference becomes shadowed by a local variable " ++
      s!"and is therefore forbidden. Use \"this.{field}\" instead."
  | .unknownTarget method => s!"Cannot determine accessor target for {method}"
  | .conflict message => message

def locate (p : Problem) (text : String) (offset : Nat) : Diagnostic :=
  ⟨position text offset, p.severity, some p.code, p.message⟩

end Problem

end SourceRename
