import SourceRename.Text.Bytes

/-!
# Cutting a text between characters

`splitBytes?` has an answer exactly at the offsets where one character ends and the next one
begins; such an offset is a `Cut`.  `splitBytes?_eq_some_iff` says so by concatenation, and
`slice?_eq_some_iff` does the same for the part that a span covers,

    slice? cs span = some part  ↔  cs = before ++ part ++ after

with the offsets given by the widths.
-/

namespace SourceRename

/-! ### Bytes of a string -/

theorem byteLength_ofList (cs : List Char) : (String.ofList cs).utf8ByteSize = byteLength cs := by
  induction cs with
  | nil => rfl
  | cons c cs ih =>
    calc (String.ofList (c :: cs)).utf8ByteSize
        = (String.singleton c ++ String.ofList cs).utf8ByteSize := by
          rw [String.singleton_eq_ofList, ← String.ofList_append, List.singleton_append]
      _ = c.utf8Size + byteLength cs := by
          rw [String.utf8ByteSize_append, String.utf8ByteSize_singleton, ih]

@[simp] theorem byteLength_toList (s : String) : byteLength s.toList = s.utf8ByteSize := by
  rw [← byteLength_ofList, String.ofList_toList]

theorem byteLength_eq_zero {cs : List Char} : byteLength cs = 0 ↔ cs = [] := by
  cases cs with
  | nil => simp
  | cons c cs =>
    have := c.utf8Size_pos
    simp only [byteLength_cons, reduceCtorEq, iff_false]
    omega

/-! ### Splitting at a prefix -/

theorem splitBytes?_append (xs ys : List Char) :
    splitBytes? (byteLength xs) (xs ++ ys) = some (xs, ys) := by
  induction xs with
  | nil => cases ys <;> rfl
  | cons c xs ih =>
    have hc := c.utf8Size_pos
    obtain ⟨n, hn⟩ : ∃ n, byteLength (c :: xs) = n + 1 :=
      ⟨byteLength (c :: xs) - 1, by rw [byteLength_cons]; omega⟩
    rw [hn, List.cons_append, splitBytes?, ← hn, byteLength_cons, if_pos (by omega),
      Nat.add_sub_cancel_left, ih]
    rfl

theorem splitBytes?_eq_some_iff {n : Nat} {cs xs ys : List Char} :
    splitBytes? n cs = some (xs, ys) ↔ xs ++ ys = cs ∧ byteLength xs = n := by
  constructor
  · intro h
    exact ⟨append_of_splitBytes? h, byteLength_of_splitBytes? h⟩
  · rintro ⟨rfl, rfl⟩
    exact splitBytes?_append xs ys

/-- Two ways to cut a text: the shorter first part begins the longer one. -/
theorem prefix_of_byteLength_le {xs ys us vs : List Char} (h : xs ++ ys = us ++ vs)
    (hle : byteLength xs ≤ byteLength us) : ∃ mid, us = xs ++ mid ∧ ys = mid ++ vs := by
  rcases List.append_eq_append_iff.1 h with ⟨mid, rfl, rfl⟩ | ⟨mid, rfl, rfl⟩
  · exact ⟨mid, rfl, rfl⟩
  · have hmid : mid = [] := by
      rw [byteLength_append] at hle
      exact byteLength_eq_zero.1 (by omega)
    subst hmid
    exact ⟨[], by simp, by simp⟩

theorem append_inj_of_byteLength {xs ys us vs : List Char} (h : xs ++ ys = us ++ vs)
    (hlen : byteLength xs = byteLength us) : xs = us ∧ ys = vs := by
  obtain ⟨mid, rfl, rfl⟩ := prefix_of_byteLength_le h (by omega)
  have hmid : mid = [] := by
    rw [byteLength_append] at hlen
    exact byteLength_eq_zero.1 (by omega)
  subst hmid
  simp

/-! ### Offsets between characters -/

/-- The offset lies between two characters of the text, or at one of its ends. -/
def Cut (cs : List Char) (n : Nat) : Prop := ∃ xs ys, xs ++ ys = cs ∧ byteLength xs = n

theorem cut_iff_isSome {cs : List Char} {n : Nat} : Cut cs n ↔ (splitBytes? n cs).isSome := by
  constructor
  · rintro ⟨xs, ys, rfl, rfl⟩
    rw [splitBytes?_append]
    rfl
  · intro h
    obtain ⟨⟨xs, ys⟩, hp⟩ := Option.isSome_iff_exists.1 h
    exact ⟨xs, ys, splitBytes?_eq_some_iff.1 hp⟩

instance (cs : List Char) (n : Nat) : Decidable (Cut cs n) := decidable_of_iff _ cut_iff_isSome.symm

theorem Cut.le {cs : List Char} {n : Nat} (h : Cut cs n) : n ≤ byteLength cs := by
  obtain ⟨xs, ys, rfl, rfl⟩ := h
  simp

theorem Cut.rest {xs ys : List Char} {n : Nat} (h : Cut (xs ++ ys) n) (hle : byteLength xs ≤ n) :
    ∃ mid tail, ys = mid ++ tail ∧ n = byteLength xs + byteLength mid := by
  obtain ⟨us, vs, he, rfl⟩ := h
  obtain ⟨mid, rfl, rfl⟩ := prefix_of_byteLength_le he.symm hle
  exact ⟨mid, vs, rfl, by simp⟩

/-- A span behind a first part whose ends are cuts covers a part of the rest. -/
theorem Cut.covered {xs ys : List Char} {span : Span} (h1 : Cut (xs ++ ys) span.start)
    (h2 : Cut (xs ++ ys) span.stop) (hle : byteLength xs ≤ span.start) :
    ∃ kept covered tail, ys = kept ++ covered ++ tail ∧
      span.start = byteLength xs + byteLength kept ∧
      span.stop = span.start + byteLength covered := by
  have hspan := span.start_le_stop
  obtain ⟨kept, rest, rfl, hkept⟩ := h1.rest hle
  rw [← List.append_assoc] at h2
  obtain ⟨covered, tail, rfl, hcovered⟩ := h2.rest (by
    rw [byteLength_append]
    omega)
  rw [byteLength_append] at hcovered
  exact ⟨kept, covered, tail, by simp, hkept, by omega⟩

/-! ### Parts of a text -/

def PartAt (cs : List Char) (start : Nat) (part : List Char) : Prop :=
  ∃ before after, cs = before ++ part ++ after ∧ byteLength before = start

theorem PartAt.self (cs : List Char) : PartAt cs 0 cs := ⟨[], [], by simp, rfl⟩

theorem PartAt.cut_start {cs part : List Char} {start : Nat} (h : PartAt cs start part) :
    Cut cs start := by
  obtain ⟨before, after, rfl, hb⟩ := h
  exact ⟨before, part ++ after, by simp, hb⟩

theorem PartAt.cut_stop {cs part : List Char} {start : Nat} (h : PartAt cs start part) :
    Cut cs (start + byteLength part) := by
  obtain ⟨before, after, rfl, rfl⟩ := h
  exact ⟨before ++ part, after, rfl, byteLength_append _ _⟩

theorem PartAt.trans {cs part sub : List Char} {start n : Nat} (h : PartAt cs start part)
    (hsub : PartAt part n sub) : PartAt cs (start + n) sub := by
  obtain ⟨before, after, rfl, rfl⟩ := h
  obtain ⟨before', after', rfl, rfl⟩ := hsub
  exact ⟨before ++ before', after' ++ after, by simp, byteLength_append _ _⟩

theorem PartAt.append {cs us vs : List Char} {start : Nat} (h : PartAt cs start (us ++ vs)) :
    PartAt cs start us ∧ PartAt cs (start + byteLength us) vs := by
  obtain ⟨before, after, rfl, rfl⟩ := h
  exact ⟨⟨before, vs ++ after, by simp, rfl⟩, ⟨before ++ us, after, by simp, byteLength_append _ _⟩⟩

theorem PartAt.unique {cs part other : List Char} {start : Nat} (h : PartAt cs start part)
    (hother : PartAt cs start other) (hlen : byteLength part = byteLength other) :
    part = other := by
  obtain ⟨before, after, rfl, hb⟩ := h
  obtain ⟨before', after', heq, hb'⟩ := hother
  rw [List.append_assoc, List.append_assoc] at heq
  obtain ⟨-, hrest⟩ := append_inj_of_byteLength heq (by omega)
  exact (append_inj_of_byteLength hrest hlen).1

/-! ### The part that a span covers -/

theorem slice?_eq_some_iff {cs part : List Char} {span : Span} :
    slice? cs span = some part ↔
      ∃ before after, cs = before ++ part ++ after ∧ byteLength before = span.start ∧
        byteLength part = span.width := by
  constructor
  · intro h
    obtain ⟨⟨before, rest⟩, h1, h⟩ := Option.bind_eq_some_iff.1 h
    obtain ⟨⟨part', after⟩, h2, h⟩ := Option.bind_eq_some_iff.1 h
    obtain rfl : part' = part := Option.some.inj h
    obtain ⟨rfl, hb⟩ := splitBytes?_eq_some_iff.1 h1
    obtain ⟨rfl, hp⟩ := splitBytes?_eq_some_iff.1 h2
    exact ⟨before, after, by simp, hb, hp⟩
  · rintro ⟨before, after, rfl, hb, hp⟩
    rw [slice?, ← hb, List.append_assoc, splitBytes?_append]
    simp only [Option.bind_eq_bind, Option.bind_some, ← hp, splitBytes?_append]
    rfl

theorem exists_slice?_of_cut {cs : List Char} {span : Span} (hstart : Cut cs span.start)
    (hstop : Cut cs span.stop) : ∃ part, slice? cs span = some part := by
  have hstart : Cut ([] ++ cs) span.start := hstart
  obtain ⟨before, covered, after, htext, hbefore, hcovered⟩ :=
    hstart.covered hstop (Nat.zero_le _)
  refine ⟨covered, slice?_eq_some_iff.2 ⟨before, after, htext, ?_, ?_⟩⟩
  · rw [hbefore, byteLength_nil, Nat.zero_add]
  · rw [Span.width]
    omega

theorem PartAt.slice? {cs part : List Char} {start : Nat} (h : PartAt cs start part) :
    slice? cs (.ofWidth start (byteLength part)) = some part := by
  obtain ⟨before, after, hcs, hb⟩ := h
  refine slice?_eq_some_iff.2 ⟨before, after, hcs, hb, ?_⟩
  show byteLength part = start + byteLength part - start
  omega

end SourceRename
