import SourceRename.Renames.Basic
import Mathlib.Data.List.Basic
import Mathlib.Data.Nat.Find

/-!
# Names of nested classes

A nested class may be written with dots throughout, `a.pkg.A.Inner`, although its name is
`a/pkg/A$Inner`.  The search for it goes round by round (`Renames.nestedRound`): a name that is not
found loses its last dot to a `$` and is looked up again.

What the rounds make of a name is said here without them.  In `Renames.nestDots k name` a dot has
become `$` if fewer than `k` dots stand behind it, so the last `k` dots have.  The rounds run
through just these names (`nestLastDot_nestDots`), whatever slashes and dollar signs there are
between the dots:

    nestLastDot (nestDots k name) = nestDots (k + 1) name.

A name with `d` dots has none left after `d` rounds, so the search ends with at most `d + 1`
look-ups, and it answers with the least `k` for which a class is found (`findNested?_least`).
-/

namespace SourceRename.Renames

/-! ### The last dots of a name -/

/-- The last `k` dots replaced by `$`: those behind which fewer than `k` dots stand. -/
def nestDotsIn (k : Nat) : List Char → List Char
  | [] => []
  | c :: cs => (if c = '.' ∧ cs.count '.' < k then '$' else c) :: nestDotsIn k cs

def nestDots (k : Nat) (name : String) : String := String.ofList (nestDotsIn k name.toList)

theorem nestDotsIn_zero (cs : List Char) : nestDotsIn 0 cs = cs := by
  induction cs with
  | nil => rfl
  | cons c cs ih => rw [nestDotsIn, ih, if_neg (by omega)]

theorem nestDots_zero (name : String) : nestDots 0 name = name := by
  rw [nestDots, nestDotsIn_zero, String.ofList_toList]

theorem count_nestDotsIn (k : Nat) (cs : List Char) :
    (nestDotsIn k cs).count '.' = cs.count '.' - k := by
  induction cs with
  | nil => simp [nestDotsIn]
  | cons c cs ih =>
    rw [nestDotsIn]
    by_cases hc : c = '.'
    · subst hc
      by_cases hk : cs.count '.' < k
      · rw [if_pos ⟨rfl, hk⟩, List.count_cons_of_ne (by decide), ih, List.count_cons_self]
        omega
      · rw [if_neg (fun h => hk h.2), List.count_cons_self, ih, List.count_cons_self]
        omega
    · rw [if_neg (fun h => hc h.1), List.count_cons_of_ne hc, ih, List.count_cons_of_ne hc]

theorem nestDotsIn_of_count_le {k m : Nat} {cs : List Char} (hk : cs.count '.' ≤ k)
    (hm : cs.count '.' ≤ m) : nestDotsIn k cs = nestDotsIn m cs := by
  induction cs with
  | nil => rfl
  | cons c cs ih =>
    have hle : cs.count '.' ≤ (c :: cs).count '.' := List.count_le_count_cons
    rw [nestDotsIn, nestDotsIn, ih (by omega) (by omega)]
    by_cases hc : c = '.'
    · subst hc
      rw [List.count_cons_self] at hk hm
      rw [if_pos ⟨rfl, by omega⟩, if_pos ⟨rfl, by omega⟩]
    · rw [if_neg (fun h => hc h.1), if_neg (fun h => hc h.1)]

/-! ### Replacing one dot after the other -/

theorem nestFirstDot_append (cs : List Char) (c : Char) :
    nestFirstDot (cs ++ [c]) =
      if '.' ∈ cs then nestFirstDot cs ++ [c] else cs ++ [if c = '.' then '$' else c] := by
  induction cs with
  | nil =>
    by_cases hc : c = '.'
    · simp [nestFirstDot, hc]
    · simp [nestFirstDot, hc]
  | cons d cs ih =>
    rw [List.cons_append, nestFirstDot]
    by_cases hd : d = '.'
    · simp [nestFirstDot, hd]
    · rw [if_neg hd, ih]
      by_cases hmem : '.' ∈ cs
      · simp [nestFirstDot, hd, hmem]
      · simp [hmem, Ne.symm hd]

/-- The last dot of a text is the last one of its tail, if there is one. -/
theorem reverse_nestFirstDot_cons (c : Char) (cs : List Char) :
    (nestFirstDot (c :: cs).reverse).reverse =
      if '.' ∈ cs then c :: (nestFirstDot cs.reverse).reverse
      else (if c = '.' then '$' else c) :: cs := by
  rw [List.reverse_cons, nestFirstDot_append]
  by_cases hmem : '.' ∈ cs
  · rw [if_pos (List.mem_reverse.2 hmem), if_pos hmem]
    simp
  · rw [if_neg (fun h => hmem (List.mem_reverse.1 h)), if_neg hmem]
    simp

/-- **The invariant of the rounds**: where the last `k` dots have been replaced, the last one that
is left is the next. -/
theorem nestFirstDot_nestDotsIn (k : Nat) (cs : List Char) :
    (nestFirstDot (nestDotsIn k cs).reverse).reverse = nestDotsIn (k + 1) cs := by
  induction cs with
  | nil => rfl
  | cons c cs ih =>
    have hleft : '.' ∈ nestDotsIn k cs ↔ k < cs.count '.' := by
      rw [← List.count_pos_iff, count_nestDotsIn]
      omega
    rw [nestDotsIn, reverse_nestFirstDot_cons, nestDotsIn, ih]
    by_cases hk : k < cs.count '.'
    · -- a dot is left behind the first sign, which stays as it is
      rw [if_pos (hleft.2 hk), if_neg (by omega), if_neg (by omega)]
    · -- none is left there, so the first sign is the next to be replaced if it is a dot
      have htail : nestDotsIn k cs = nestDotsIn (k + 1) cs :=
        nestDotsIn_of_count_le (by omega) (by omega)
      rw [if_neg (fun h => hk (hleft.1 h)), htail]
      by_cases hc : c = '.'
      · have hnext : c = '.' ∧ cs.count '.' < k + 1 := ⟨hc, by omega⟩
        rw [if_pos hnext]
        by_cases hlt : c = '.' ∧ cs.count '.' < k
        · rw [if_pos hlt, if_neg (by decide)]
        · rw [if_neg hlt, if_pos hc]
      · rw [if_neg (fun h : c = '.' ∧ _ => hc h.1), if_neg hc, if_neg (fun h => hc h.1)]

theorem nestLastDot_nestDots (k : Nat) (name : String) :
    nestLastDot (nestDots k name) = nestDots (k + 1) name := by
  rw [nestLastDot, nestDots, String.toList_ofList, nestFirstDot_nestDotsIn, nestDots]

example : (List.range 4).map (nestDots · "a/p.A$B.C") =
    ["a/p.A$B.C", "a/p.A$B$C", "a/p$A$B$C", "a/p$A$B$C"] := by decide

/-! ### The rounds of a search -/

variable {r : Renames} {name : String} {c : ClassRename} {k : Nat}

theorem dot_mem_nestDots_iff : '.' ∈ (nestDots k name).toList ↔ k < name.toList.count '.' := by
  rw [← List.count_pos_iff, nestDots, String.toList_ofList, count_nestDotsIn]
  omega

theorem nestedRound_of_found (h : r.find? name = some c) : r.nestedRound name = .inl (some c) := by
  rw [nestedRound, h]

/-- A round in which none is found goes on with one dot less, or ends the search. -/
theorem nestedRound_nestDots (h : r.find? (nestDots k name) = none) :
    r.nestedRound (nestDots k name) =
      if k < name.toList.count '.' then .inr (nestDots (k + 1) name) else .inl none := by
  rw [nestedRound, h]
  simp only [dot_mem_nestDots_iff, nestLastDot_nestDots]

theorem findNested?_of_last {answer : Option ClassRename} (h : r.nestedRound name = .inl answer) :
    r.findNested? name = answer := by
  rw [findNested?]
  split
  · next answer' h' =>
    rw [h] at h'
    exact (Sum.inl.inj h').symm
  · next h' =>
    rw [h] at h'
    simp at h'

theorem findNested?_of_next {next : String} (h : r.nestedRound name = .inr next) :
    r.findNested? name = r.findNested? next := by
  rw [findNested?]
  split
  · next h' =>
    rw [h] at h'
    simp at h'
  · next next' h' =>
    rw [h] at h'
    rw [Sum.inr.inj h']

/-- The search goes through the names up to the `k`-th one and goes on from there, if none of those
before is found. -/
theorem rounds_nestDots (hk : k ≤ name.toList.count '.')
    (hnone : ∀ j < k, r.find? (nestDots j name) = none) :
    (∀ j < k, r.nestedRound (nestDots j name) = .inr (nestDots (j + 1) name)) ∧
      r.findNested? name = r.findNested? (nestDots k name) := by
  induction k with
  | zero => exact ⟨fun j hj => absurd hj (Nat.not_lt_zero j), by rw [nestDots_zero]⟩
  | succ k ih =>
    obtain ⟨hrounds, hfind⟩ := ih (by omega) (fun j hj => hnone j (by omega))
    have hround : r.nestedRound (nestDots k name) = .inr (nestDots (k + 1) name) := by
      rw [nestedRound_nestDots (hnone k (by omega)), if_pos (by omega)]
    constructor
    · intro j hj
      rcases Nat.lt_succ_iff_lt_or_eq.1 hj with hlt | rfl
      · exact hrounds j hlt
      · exact hround
    · rw [hfind, findNested?_of_next hround]

theorem first_found (r : Renames) (name : String) :
    (∀ k ≤ name.toList.count '.', r.find? (nestDots k name) = none) ∨
      ∃ k ≤ name.toList.count '.', ∃ c, r.find? (nestDots k name) = some c ∧
        ∀ j < k, r.find? (nestDots j name) = none := by
  by_cases h : ∃ k, k ≤ name.toList.count '.' ∧ (r.find? (nestDots k name)).isSome = true
  · obtain ⟨hle, hsome⟩ := Nat.find_spec h
    obtain ⟨c, hc⟩ := Option.isSome_iff_exists.1 hsome
    refine .inr ⟨Nat.find h, hle, c, hc, fun j hj => ?_⟩
    have hmin := Nat.find_min h hj
    rw [not_and, Bool.not_eq_true, Option.isSome_eq_false_iff, Option.isNone_iff_eq_none] at hmin
    exact hmin (by omega)
  · refine .inl fun k hk => ?_
    rw [not_exists] at h
    have := h k
    rw [not_and, Bool.not_eq_true, Option.isSome_eq_false_iff, Option.isNone_iff_eq_none] at this
    exact this hk

theorem search_of_first (hk : k ≤ name.toList.count '.')
    (hfound : r.find? (nestDots k name) = some c)
    (hnone : ∀ j < k, r.find? (nestDots j name) = none) :
    r.nestedRound (nestDots k name) = .inl (some c) ∧ r.findNested? name = some c := by
  have hlast := nestedRound_of_found hfound
  exact ⟨hlast, (rounds_nestDots hk hnone).2.trans (findNested?_of_last hlast)⟩

theorem search_of_none (hnone : ∀ k ≤ name.toList.count '.', r.find? (nestDots k name) = none) :
    r.nestedRound (nestDots (name.toList.count '.') name) = .inl none ∧
      r.findNested? name = none := by
  have hlast : r.nestedRound (nestDots (name.toList.count '.') name) = .inl none := by
    rw [nestedRound_nestDots (hnone _ (Nat.le_refl _)), if_neg (Nat.lt_irrefl _)]
  exact ⟨hlast, (rounds_nestDots (Nat.le_refl _) fun j hj => hnone j (by omega)).2.trans
    (findNested?_of_last hlast)⟩

/-- **The search for a nested class is short and takes the least reading.**  Whatever the renames
and whatever the name, of which `d` signs are dots:

* the search ends in a round `n ≤ d`, counted from zero, and each round looks up one name, namely
  the given one with as many of its last dots replaced as rounds went before;
* it finds a class exactly if the name with its last `k` dots replaced is that of the class for some
  `k ≤ d`, and no smaller `k` finds any;
* it finds none exactly if no `k ≤ d` does;
* a name that is found as written is not read in another way. -/
theorem findNested?_least (r : Renames) (name : String) :
    let d := name.toList.count '.'
    (nestDots 0 name = name ∧ ∃ n ≤ d,
      (∀ i < n, r.nestedRound (nestDots i name) = .inr (nestDots (i + 1) name)) ∧
        r.nestedRound (nestDots n name) = .inl (r.findNested? name)) ∧
    (∀ c, r.findNested? name = some c ↔ ∃ k ≤ d, r.find? (nestDots k name) = some c ∧
      ∀ j < k, r.find? (nestDots j name) = none) ∧
    (r.findNested? name = none ↔ ∀ k ≤ d, r.find? (nestDots k name) = none) ∧
    ∀ c, r.find? name = some c → r.findNested? name = some c := by
  intro d
  have hwritten : ∀ c, r.find? name = some c → r.findNested? name = some c := fun c hc =>
    findNested?_of_last (nestedRound_of_found hc)
  rcases first_found r name with hnone | ⟨k, hk, c, hfound, hless⟩
  · obtain ⟨hlast, hanswer⟩ := search_of_none hnone
    refine ⟨⟨nestDots_zero name, d, Nat.le_refl d, ?_, ?_⟩, ?_, ?_, hwritten⟩
    · exact (rounds_nestDots (Nat.le_refl d) fun j hj => hnone j (Nat.le_of_lt hj)).1
    · rw [hanswer]
      exact hlast
    · intro c
      rw [hanswer]
      refine iff_of_false nofun ?_
      rintro ⟨k, hk, hfound, -⟩
      rw [hnone k hk] at hfound
      simp at hfound
    · exact iff_of_true hanswer hnone
  · obtain ⟨hlast, hanswer⟩ := search_of_first hk hfound hless
    refine ⟨⟨nestDots_zero name, k, hk, (rounds_nestDots hk hless).1, ?_⟩, ?_, ?_, hwritten⟩
    · rw [hanswer]
      exact hlast
    · intro c'
      rw [hanswer]
      constructor
      · intro heq
        exact ⟨k, hk, hfound.trans heq, hless⟩
      · rintro ⟨m, hm, hfound', hless'⟩
        rw [← (search_of_first hm hfound' hless').2, hanswer]
    · rw [hanswer]
      refine iff_of_false nofun fun hnone => ?_
      rw [hnone k hk] at hfound
      simp at hfound

end SourceRename.Renames
