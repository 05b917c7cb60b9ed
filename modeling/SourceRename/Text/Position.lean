import SourceRename.Text.Bytes

/-!
# Lines and columns

A line starts at the beginning of a text and behind every newline.  The position of an offset is
the last line that starts at or before it, with the distance from that start in bytes; an offset
inside a character or behind the end has a position as well.
-/

namespace SourceRename

/-- Line and column, both counted from zero. -/
structure Position where
  line : Nat
  column : Nat
deriving DecidableEq

/-- Starts of the lines that begin behind a newline, for a text that begins at `offset`. -/
def lineStartsFrom (offset : Nat) : List Char → List Nat
  | [] => []
  | c :: cs =>
    let next := offset + c.utf8Size
    if c = '\n' then next :: lineStartsFrom next cs else lineStartsFrom next cs

def lineStarts (text : String) : List Nat := 0 :: lineStartsFrom 0 text.toList

/-- Number of lines; a newline at the end opens an empty one. -/
def lineCount (text : String) : Nat := (lineStarts text).length

/-- The place of a number in an ascending list or else, as an error, the place where it can be put
in. -/
def placeOf (n : Nat) (xs : List Nat) : Except Nat Nat :=
  let place := (xs.takeWhile (· < n)).length
  if xs[place]? = some n then .ok place else .error place

def lineOf (text : String) (offset : Nat) : Nat :=
  match placeOf offset (lineStarts text) with
  | .ok line => line
  | .error next => next - 1

def position (text : String) (offset : Nat) : Position :=
  let line := lineOf text offset
  ⟨line, offset - (lineStarts text).getD line 0⟩

end SourceRename
