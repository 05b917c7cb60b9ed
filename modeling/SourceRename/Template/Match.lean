import SourceRename.Fault
import SourceRename.Template.Align
import SourceRename.Text.Bytes

/-!
# Matching a template

`Template.trace` matches a node of a template's tree against a node of a file, part by part, and
lists what the parameters stand for, in the order in which the parts are visited.  A parameter
stands for an expression of a fitting type that does not read a lambda parameter, because the
replacement may take it out of the lambda expression.  The first part that differs ends it.

An expression captured for a parameter has to read like the first thing captured for it.  The two
texts are compared as soon as the expression is captured, whether the parts behind it differ or not,
and neither may be cut inside a character (`alike`).  `Template.find` does both for the whole tree.
-/

namespace SourceRename

/-- A place where a template matches, with what its parameters stand for. -/
structure Match where
  root : Span
  captures : List Capture

/-- What is captured by the time two nodes turn out to match, or to differ. -/
structure Trace where
  captures : List Capture
  fits : Bool

def Trace.followedBy (a b : Trace) : Trace :=
  if a.fits then ⟨a.captures ++ b.captures, b.fits⟩ else a

namespace Template

def readsBound (bound : Bound) (e : Site) : Bool :=
  e.preorder.any fun s => s.kind == .referenceExpr && isBound bound s

def capture? (t : Template) (file : SourceFile) (bound : Bound) (parameter : Nat) (e : Site) :
    Option Capture :=
  if e.kind.isExpression && t.fits file parameter e && !readsBound bound e then
    some ⟨parameter, e.span, .single⟩
  else none

def trace (t : Template) (file : SourceFile) (bound : Bound) (p e : Site) : Trace :=
  match t.hole? p with
  | some parameter =>
    match t.capture? file bound parameter e with
    | some c => ⟨[c], true⟩
    | none => ⟨[], false⟩
  | none =>
    match _h : t.attempt file bound p e with
    | (a, complete) =>
      (a.pairs.attach.map fun x => t.trace file a.bound x.1.1 x.1.2).foldr Trace.followedBy
        ⟨a.captures, complete⟩
termination_by p.size
decreasing_by exact size_lt_of_attempt _h x.2

theorem trace_of_hole {t : Template} {file : SourceFile} {bound : Bound} {p e : Site}
    {parameter : Nat} (h : t.hole? p = some parameter) :
    t.trace file bound p e = ⟨(t.capture? file bound parameter e).toList,
      (t.capture? file bound parameter e).isSome⟩ := by
  rw [trace, h]
  simp only
  cases t.capture? file bound parameter e <;> rfl

theorem trace_of_attempt {t : Template} {file : SourceFile} {bound : Bound} {p e : Site}
    {a : Alignment} {complete : Bool} (hole : t.hole? p = none)
    (h : t.attempt file bound p e = (a, complete)) :
    t.trace file bound p e = (a.pairs.map fun x => t.trace file a.bound x.1 x.2).foldr
      Trace.followedBy ⟨a.captures, complete⟩ := by
  rw [trace, hole]
  simp only
  rw [h, List.attach_map_val (f := fun x : Site × Site => t.trace file a.bound x.1 x.2)]

/-- The text of a span, which must not be cut inside a character. -/
def textOf (text : List Char) (span : Span) : Except Fault (List Char) :=
  match slice? text span with
  | some part => .ok part
  | none => .error .badCut

/-- A captured expression reads like the first capture of the same parameter. -/
def alike (text : List Char) (earlier : List Capture) (c : Capture) : Except Fault Bool :=
  match c.extent, earlier.find? (·.parameter == c.parameter) with
  | .single, some first => do return (← textOf text first.span) == (← textOf text c.span)
  | _, _ => .ok true

/-- Captures are compared one after the other, until one of them differs. -/
def allAlike (text : List Char) (earlier : List Capture) : List Capture → Except Fault Bool
  | [] => .ok true
  | c :: cs => do
    if ← alike text earlier c then allAlike text (earlier ++ [c]) cs else return false

def find (t : Template) (file : SourceFile) (site : Site) : Except Fault (Option Match) := do
  let trace := t.trace file [] t.root site
  let same ← allAlike file.text.toList [] trace.captures
  return if same && trace.fits then some ⟨site.span, trace.captures⟩ else none

end Template

end SourceRename
