import SourceRename.Edit.Pending
import SourceRename.Template.Match

/-!
# The changes of a match

What a template's parameters stand for stays where it is; the text before, between and behind the
captures is replaced by the fragments of the replacement.  Where no arguments are captured for a
variadic parameter, the comma next to its place in the replacement goes as well.
-/

namespace SourceRename.Template

def comesBefore (a b : Capture) : Bool := !b.span.precedes a.span

/-- The spans before, between and behind captures. -/
def gaps (start stop : Nat) : List Capture → List Span
  | [] => [.upTo start stop]
  | c :: cs => .upTo start c.span.start :: gaps (max start c.span.stop) stop cs

def separator : List Char := [',', ' ']

/-- A fragment without a separator at its end. -/
def dropSeparatorEnd? (fragment : List Char) : Option (List Char) :=
  (Naming.dropStart? separator.reverse fragment.reverse).map List.reverse

/-- Drops a separator next to each capture of no arguments: the one before it, or else the one
behind it. -/
def dropSeparators : List Capture → List (List Char) → List (List Char)
  | c :: cs, f :: g :: fs =>
    if c.extent = .omitted then
      match dropSeparatorEnd? f with
      | some f => f :: dropSeparators cs (g :: fs)
      | none => f :: dropSeparators cs ((Naming.dropStart? separator g).getD g :: fs)
    else f :: dropSeparators cs (g :: fs)
  | _, fs => fs

def resize {α : Type} (filling : α) (length : Nat) (xs : List α) : List α :=
  xs.take length ++ List.replicate (length - xs.length) filling

/-- The replacements that turn a match into the replacement of the template. -/
def changes (t : Template) (m : Match) : List Edit :=
  let captures := m.captures.mergeSort comesBefore
  let spans := gaps m.root.start m.root.stop captures
  let fragments := dropSeparators captures (resize [] spans.length (t.replacement.map String.toList))
  (spans.zipWith (fun span text => Edit.mk span (String.ofList text)) fragments).filter
    fun e => !(e.span.isEmpty && e.text.isEmpty)

end SourceRename.Template
