/-!
# Ranges of code points

The character classes of the Unicode Standard that names are made of are unions of intervals of
code points.  A table is a list of such intervals, and `CodeRange.mem` asks whether a code point
lies in one of them.

`CodeRange.memLead` asks less: whether a table holds a code point that begins in UTF-8 with the same
byte.  The first byte grows with the code point, so an interval is settled by its ends.
-/

namespace SourceRename.Unicode

/-- The code points from `first` to `last`, both included. -/
structure CodeRange where
  first : Nat
  last : Nat
deriving DecidableEq

def CodeRange.contains (r : CodeRange) (code : Nat) : Bool :=
  r.first ≤ code && code ≤ r.last

def CodeRange.mem (table : List CodeRange) (code : Nat) : Bool :=
  table.any (·.contains code)

def leadByte (code : Nat) : Nat :=
  if code < 0x80 then code
  else if code < 0x800 then 0xC0 + code / 0x40
  else if code < 0x10000 then 0xE0 + code / 0x1000
  else 0xF0 + code / 0x40000

/-- Some range of the table holds a code point with the first byte of the code point. -/
def CodeRange.memLead (table : List CodeRange) (code : Nat) : Bool :=
  table.any fun r => leadByte r.first ≤ leadByte code && leadByte code ≤ leadByte r.last

end SourceRename.Unicode
