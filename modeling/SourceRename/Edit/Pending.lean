import SourceRename.Text.Span

/-!
# Pending replacements

`Edits` lists replacements of spans of one text, in ascending order and each span once.  Queueing a
span that is there already appends to its replacement.  A span is free if no listed span shares a
byte with it; empty spans are always free.
-/

namespace SourceRename

structure Edit where
  span : Span
  text : String
deriving DecidableEq

/-- Replacements in ascending order of their spans, each span once. -/
structure Edits where
  toList : List Edit
  ascending : toList.Pairwise fun a b => a.span.precedes b.span = true

namespace Edits

def empty : Edits := ⟨[], .nil⟩

/-- Puts a replacement in its place, or appends it to the one with the same span. -/
def insert (e : Edit) : List Edit → List Edit
  | [] => [e]
  | f :: fs =>
    if e.span = f.span then ⟨f.span, f.text ++ e.text⟩ :: fs
    else if e.span.precedes f.span then e :: f :: fs
    else f :: insert e fs

theorem mem_insert_span {e g : Edit} {fs : List Edit} (h : g ∈ insert e fs) :
    g.span = e.span ∨ ∃ f ∈ fs, g.span = f.span := by
  induction fs with
  | nil => simp_all [insert]
  | cons f fs ih =>
    simp only [insert] at h
    split at h
    · rcases List.mem_cons.1 h with rfl | h
      · exact .inr ⟨f, by simp, rfl⟩
      · exact .inr ⟨g, by simp [h], rfl⟩
    · split at h
      · rcases List.mem_cons.1 h with rfl | h
        · exact .inl rfl
        · exact .inr ⟨g, h, rfl⟩
      · rcases List.mem_cons.1 h with rfl | h
        · exact .inr ⟨g, by simp, rfl⟩
        · rcases ih h with h | ⟨k, hk, h⟩
          · exact .inl h
          · exact .inr ⟨k, by simp [hk], h⟩

theorem pairwise_insert {e : Edit} {fs : List Edit}
    (h : fs.Pairwise fun a b => a.span.precedes b.span = true) :
    (insert e fs).Pairwise fun a b => a.span.precedes b.span = true := by
  induction fs with
  | nil => simp [insert]
  | cons f fs ih =>
    rw [List.pairwise_cons] at h
    simp only [insert]
    split
    · exact List.pairwise_cons.2 ⟨h.1, h.2⟩
    · next hne =>
      split
      · next hlt =>
        refine List.pairwise_cons.2 ⟨fun g hg => ?_, List.pairwise_cons.2 h⟩
        rcases List.mem_cons.1 hg with rfl | hg
        · exact hlt
        · exact Span.precedes_trans hlt (h.1 g hg)
      · next hnlt =>
        refine List.pairwise_cons.2 ⟨fun g hg => ?_, ih h.2⟩
        rcases mem_insert_span hg with hs | ⟨k, hk, hs⟩
        · rw [hs]
          exact (Span.precedes_total hne).resolve_left hnlt
        · rw [hs]
          exact h.1 k hk

/-- Queues a replacement; a second one for the same span is appended to the first. -/
def queue (es : Edits) (span : Span) (text : String) : Edits :=
  ⟨insert ⟨span, text⟩ es.toList, pairwise_insert es.ascending⟩

def size (es : Edits) : Nat := es.toList.length

/-- The first listed span that shares a byte with the given one.  Spans that begin at its end or
behind are not looked at. -/
def firstOverlap? (es : Edits) (span : Span) : Option Span :=
  if span.isEmpty then none
  else
    let scanned := es.toList.takeWhile (·.span.precedesKey span.stop 0)
    (scanned.find? (·.span.overlaps span)).map (·.span)

def isFree (es : Edits) (span : Span) : Bool := (es.firstOverlap? span).isNone

def hasSpan (es : Edits) (span : Span) : Bool := es.toList.any (·.span == span)

end Edits

end SourceRename
