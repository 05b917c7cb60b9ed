/-!
# Spans

Every place in a text is a half-open range of byte offsets into its UTF-8 form.  `Span.overlaps`
asks for a shared byte, so an empty span overlaps nothing; `Span.precedes` is the order by start
and then by end in which replacements are listed.
-/

namespace SourceRename

/-- The bytes from `start` up to, and not including, `stop`. -/
structure Span where
  start : Nat
  stop : Nat
  start_le_stop : start ≤ stop := by omega
deriving DecidableEq

namespace Span

def empty (offset : Nat) : Span := ⟨offset, offset, Nat.le_refl offset⟩

def ofWidth (start width : Nat) : Span := ⟨start, start + width, by omega⟩

/-- The span between two offsets, empty at the first one if the second comes before it. -/
def upTo (start stop : Nat) : Span := ⟨start, max start stop, by omega⟩

def width (s : Span) : Nat := s.stop - s.start

def isEmpty (s : Span) : Bool := s.start == s.stop

def overlaps (a b : Span) : Bool := max a.start b.start < min a.stop b.stop

/-- The order by start, then by end, against two offsets. -/
def precedesKey (a : Span) (start stop : Nat) : Bool :=
  a.start < start || (a.start == start && a.stop < stop)

def precedes (a b : Span) : Bool := a.precedesKey b.start b.stop

/-- The same span in a text whose first `origin` bytes are cut off. -/
def relativeTo (s : Span) (origin : Nat) : Span :=
  ⟨s.start - origin, s.stop - origin, by have := s.start_le_stop; omega⟩

def text (s : Span) : String := s!"{s.start}..{s.stop}"

/-! ### Basic facts -/

theorem overlaps_iff {a b : Span} :
    a.overlaps b = true ↔ max a.start b.start < min a.stop b.stop := by
  simp [overlaps]

theorem overlaps_comm (a b : Span) : a.overlaps b = b.overlaps a := by
  simp only [overlaps, Nat.max_comm a.start, Nat.min_comm a.stop]

theorem precedes_iff {a b : Span} :
    a.precedes b = true ↔ a.start < b.start ∨ a.start = b.start ∧ a.stop < b.stop := by
  simp [precedes, precedesKey]

/-- Of the keys at an offset the empty span has the least. -/
theorem precedesKey_zero_iff {a : Span} {start : Nat} :
    a.precedesKey start 0 = true ↔ a.start < start := by
  simp [precedesKey]

theorem precedes_irrefl (a : Span) : a.precedes a = false := by simp [precedes, precedesKey]

theorem precedes_trans {a b c : Span} (hab : a.precedes b = true) (hbc : b.precedes c = true) :
    a.precedes c = true := by
  rw [precedes_iff] at *
  omega

theorem precedes_total {a b : Span} (h : a ≠ b) : a.precedes b = true ∨ b.precedes a = true := by
  simp only [precedes_iff]
  rcases a with ⟨s, e, _⟩
  rcases b with ⟨s', e', _⟩
  simp only [ne_eq, mk.injEq] at *
  omega

end Span

end SourceRename
