import SourceRename.Text.Span

/-!
# Byte offsets in a text

A text is read as a list of characters, each of one to four bytes in UTF-8.  `splitBytes?` cuts a
text after a number of bytes and has no answer where the cut would fall inside a character or
behind the end; where it answers, the two parts are the text (`append_of_splitBytes?`) and the
first one has the number of bytes asked for (`byteLength_of_splitBytes?`).
-/

namespace SourceRename

def byteLength : List Char → Nat
  | [] => 0
  | c :: cs => c.utf8Size + byteLength cs

@[simp] theorem byteLength_nil : byteLength [] = 0 := rfl

@[simp] theorem byteLength_cons (c : Char) (cs : List Char) :
    byteLength (c :: cs) = c.utf8Size + byteLength cs := rfl

@[simp] theorem byteLength_append (xs ys : List Char) :
    byteLength (xs ++ ys) = byteLength xs + byteLength ys := by
  induction xs with
  | nil => simp
  | cons c xs ih => simp [ih, Nat.add_assoc]

/-- Cuts a text after `n` bytes; no answer inside a character or behind the end. -/
def splitBytes? : Nat → List Char → Option (List Char × List Char)
  | 0, cs => some ([], cs)
  | _ + 1, [] => none
  | n + 1, c :: cs =>
    if c.utf8Size ≤ n + 1 then
      (splitBytes? (n + 1 - c.utf8Size) cs).map fun parts => (c :: parts.1, parts.2)
    else none

theorem append_of_splitBytes? {n : Nat} {cs xs ys : List Char}
    (h : splitBytes? n cs = some (xs, ys)) : xs ++ ys = cs := by
  induction cs generalizing n xs with
  | nil => cases n <;> simp_all [splitBytes?]
  | cons c cs ih =>
    cases n with
    | zero => simp_all [splitBytes?]
    | succ n =>
      simp only [splitBytes?] at h
      split at h
      · obtain ⟨⟨xs', ys'⟩, h', he⟩ := Option.map_eq_some_iff.1 h
        simp only [Prod.mk.injEq] at he
        obtain ⟨rfl, rfl⟩ := he
        simp [ih h']
      · simp at h

theorem byteLength_of_splitBytes? {n : Nat} {cs xs ys : List Char}
    (h : splitBytes? n cs = some (xs, ys)) : byteLength xs = n := by
  induction cs generalizing n xs with
  | nil => cases n <;> simp_all [splitBytes?]
  | cons c cs ih =>
    cases n with
    | zero => simp_all [splitBytes?]
    | succ n =>
      simp only [splitBytes?] at h
      split at h
      · obtain ⟨⟨xs', ys'⟩, h', he⟩ := Option.map_eq_some_iff.1 h
        simp only [Prod.mk.injEq] at he
        obtain ⟨rfl, rfl⟩ := he
        have := ih h'
        simp only [byteLength_cons]
        omega
      · simp at h

/-- The part of a text that a span covers; no answer if an end of the span lies inside a character
or behind the end. -/
def slice? (cs : List Char) (span : Span) : Option (List Char) := do
  let (_, rest) ← splitBytes? span.start cs
  let (part, _) ← splitBytes? span.width rest
  return part

end SourceRename
