import SourceRename.Syntax.Site

/-!
# Trees from declared spans

Whoever knows the structure of a file hands it over as a list of declarations, each the kind and
the span of a node.  `Tree.ofDeclarations` threads them through the tokens of the text: a node is
opened before the token that starts where it starts and closed before the token that starts where
it ends.  Declarations must lie on token boundaries and nest.  Of two with the same span the
earlier one is the outer node, and an empty span gives a node without children.

The tree under construction is kept as a path: what is finished inside the innermost open node
(`current`), and for every open node what stood before it (`Frame`).
-/

namespace SourceRename

/-- A node to be: its kind and the bytes it covers. -/
structure Declaration where
  kind : Kind
  span : Span
deriving DecidableEq

/-- Why declarations do not fit a text. -/
inductive OutlineError
  | notDeclarable (kind : Kind)
  | pastEnd (node : Declaration)
  | endsInsideToken (kind : Kind) (stop : Nat)
  | startsInsideToken (kind : Kind) (start : Nat)
  | crosses (node : Declaration) (outer : Kind) (stop : Nat)
  | neverClosed (kind : Kind) (stop : Nat)
deriving DecidableEq

def OutlineError.message : OutlineError → String
  | .notDeclarable kind => s!"{kind.name} cannot be declared as a node"
  | .pastEnd node => s!"{node.kind.name} at {node.span.text} extends past end of file"
  | .endsInsideToken kind stop => s!"{kind.name} ends at {stop}, inside a token"
  | .startsInsideToken kind start => s!"{kind.name} starts at {start}, inside a token"
  | .crosses node outer stop =>
    s!"{node.kind.name} at {node.span.text} overlaps {outer.name} ending at {stop}"
  | .neverClosed kind stop => s!"{kind.name} ending at {stop} was never closed"

namespace Outline

/-- An open node, with its finished left neighbours, nearest first. -/
structure Frame where
  kind : Kind
  stop : Nat
  before : List Tree

/-- A tree under construction. -/
structure Path where
  /-- Finished children of the innermost open node, nearest first. -/
  current : List Tree
  /-- Open nodes, innermost first. -/
  frames : List Frame
  /-- Declarations to come, in order of their start. -/
  pending : List Declaration

def close (offset : Nat) (current : List Tree) :
    List Frame → Except OutlineError (List Tree × List Frame)
  | [] => .ok (current, [])
  | f :: fs =>
    if offset < f.stop then .ok (current, f :: fs)
    else if f.stop < offset then .error (.endsInsideToken f.kind f.stop)
    else close offset (.node f.kind current.reverse :: f.before) fs

def openAt (offset : Nat) (current : List Tree) (frames : List Frame) :
    List Declaration → Except OutlineError Path
  | [] => .ok ⟨current, frames, []⟩
  | d :: ds =>
    if offset < d.span.start then .ok ⟨current, frames, d :: ds⟩
    else if d.span.start < offset then .error (.startsInsideToken d.kind d.span.start)
    else match frames.head?.filter (·.stop < d.span.stop) with
      | some outer => .error (.crosses d outer.kind outer.stop)
      | none =>
        if d.span.isEmpty then openAt offset (.node d.kind [] :: current) frames ds
        else openAt offset [] (⟨d.kind, d.span.stop, current⟩ :: frames) ds

namespace Path

/-- Closes and opens what ends and starts at an offset. -/
def settle (p : Path) (offset : Nat) : Except OutlineError Path := do
  let (current, frames) ← close offset p.current p.frames
  openAt offset current frames p.pending

def add (p : Path) (t : Token) : Except OutlineError Path := do
  let p ← p.settle t.start
  return { p with current := .token t.kind t.text :: p.current }

end Path

def check (length : Nat) (d : Declaration) : Except OutlineError Unit :=
  if !d.kind.isDeclarable then .error (.notDeclarable d.kind)
  else if length < d.span.stop then .error (.pastEnd d)
  else .ok ()

/-- Outer nodes come before inner ones: by start, and the longer span first. -/
def comesFirst (a b : Declaration) : Bool :=
  a.span.start < b.span.start || (a.span.start == b.span.start && b.span.stop ≤ a.span.stop)

end Outline

def Tree.ofDeclarations (text : String) (nodes : List Declaration) : Except OutlineError Tree := do
  nodes.forM (Outline.check text.utf8ByteSize)
  let path ← (tokenize text).foldlM Outline.Path.add ⟨[], [], nodes.mergeSort Outline.comesFirst⟩
  let path ← path.settle text.utf8ByteSize
  match path.frames with
  | [] => return .node .sourceFile path.current.reverse
  | f :: _ => throw (.neverClosed f.kind f.stop)

end SourceRename
