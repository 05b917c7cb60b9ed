import SourceRename.Syntax.Tree
import SourceRename.Proofs.Text.Cut

/-!
# The tokens of a text lie side by side

`tokenize` loses nothing: each token begins where the one before it ended, none is empty, and
together they are the text (`sideBySide_tokenize`, `flatMap_tokenize`).  The offsets at which a
token begins, with the end of the text, are therefore the offset zero and the ends of the tokens
(`SideBySide.mem_offsets_iff`).
-/

namespace SourceRename

/-- Tokens that fill a text from one offset to another without a gap. -/
inductive SideBySide : Nat → List Token → Nat → Prop
  | nil (offset : Nat) : SideBySide offset [] offset
  | cons {t : Token} {ts : List Token} {stop : Nat} :
      t.text ≠ "" → SideBySide t.stop ts stop → SideBySide t.start (t :: ts) stop

/-- The offsets at which tokens begin, and the end of the text. -/
def offsets (ts : List Token) (stop : Nat) : List Nat := ts.map (·.start) ++ [stop]

theorem Token.start_lt_stop {t : Token} (h : t.text ≠ "") : t.start < t.stop := by
  have : t.text.utf8ByteSize ≠ 0 := fun h0 => h (String.utf8ByteSize_eq_zero_iff.1 h0)
  rw [Token.stop]
  omega

namespace SideBySide

theorem text_ne {start stop : Nat} {ts : List Token} (h : SideBySide start ts stop) :
    ∀ t ∈ ts, t.text ≠ "" := by
  induction h with
  | nil => simp
  | cons ht _ ih => exact List.forall_mem_cons.2 ⟨ht, ih⟩

theorem mem_offsets_iff {start stop : Nat} {ts : List Token} (h : SideBySide start ts stop)
    {n : Nat} : n ∈ offsets ts stop ↔ n = start ∨ ∃ t ∈ ts, t.stop = n := by
  induction h with
  | nil => simp [offsets]
  | @cons t ts stop _ _ ih =>
    rw [show offsets (t :: ts) stop = t.start :: offsets ts stop from rfl, List.mem_cons, ih]
    simp only [List.mem_cons, exists_eq_or_imp]
    rw [eq_comm (a := n) (b := t.stop)]

theorem le_of_mem_offsets {start stop : Nat} {ts : List Token} (h : SideBySide start ts stop) :
    ∀ n ∈ offsets ts stop, start ≤ n := by
  induction h with
  | nil => simp [offsets]
  | @cons t ts stop ht _ ih =>
    intro n hn
    rcases List.mem_cons.1 hn with rfl | hn
    · exact Nat.le_refl _
    · exact Nat.le_trans (Nat.le_of_lt (Token.start_lt_stop ht)) (ih n hn)

end SideBySide

/-! ### Cutting a text into tokens -/

theorem tokensFrom_skip (start skip : Nat) (cs : List Char) :
    tokensFrom start skip cs =
      tokensFrom (start + byteLength (cs.take skip)) 0 (cs.drop skip) := by
  induction cs generalizing start skip with
  | nil => simp [tokensFrom]
  | cons c cs ih =>
    cases skip with
    | zero => simp
    | succ skip =>
      rw [tokensFrom, ih]
      simp [Nat.add_assoc]

theorem tokensFrom_cons (start : Nat) (c : Char) (cs : List Char) :
    ∃ t xs ys, tokensFrom start 0 (c :: cs) = t :: tokensFrom t.stop 0 ys ∧ c :: cs = xs ++ ys ∧
      t.text = String.ofList xs ∧ t.start = start ∧ xs ≠ [] := by
  refine ⟨⟨(Lexeme.read c cs).1, String.ofList (c :: cs.take (Lexeme.read c cs).2), start⟩,
    c :: cs.take (Lexeme.read c cs).2, cs.drop (Lexeme.read c cs).2, ?_, by simp, rfl, rfl, by simp⟩
  rw [tokensFrom]
  simp only [Token.stop, byteLength_ofList, byteLength_cons]
  rw [tokensFrom_skip (start + c.utf8Size), Nat.add_assoc]

theorem tokensFrom_spec (cs : List Char) (start : Nat) :
    SideBySide start (tokensFrom start 0 cs) (start + byteLength cs) ∧
      (tokensFrom start 0 cs).flatMap (fun t => t.text.toList) = cs := by
  induction hn : cs.length using Nat.strongRecOn generalizing cs start with
  | ind n ih =>
    cases cs with
    | nil => exact ⟨.nil _, rfl⟩
    | cons c cs =>
      obtain ⟨t, xs, ys, htokens, hcs, htext, rfl, hxs⟩ := tokensFrom_cons start c cs
      have hlen : ys.length < n := by
        have := congrArg List.length hcs
        have := List.length_pos_iff.2 hxs
        simp only [List.length_append] at *
        omega
      obtain ⟨hside, hflat⟩ := ih ys.length hlen ys t.stop rfl
      have hstop : t.stop = t.start + byteLength xs := by
        rw [Token.stop, htext, byteLength_ofList]
      have hne : t.text ≠ "" := fun h =>
        hxs (by rw [← String.toList_ofList (l := xs), ← htext, h]; rfl)
      rw [htokens, hcs]
      constructor
      · refine .cons hne ?_
        rwa [byteLength_append, ← Nat.add_assoc, ← hstop]
      · rw [List.flatMap_cons, hflat, htext, String.toList_ofList]

/-- **Tokens lie side by side**, from the beginning of the text to its end. -/
theorem sideBySide_tokenize (text : String) :
    SideBySide 0 (tokenize text) text.utf8ByteSize := by
  have := (tokensFrom_spec text.toList 0).1
  rwa [byteLength_toList, Nat.zero_add] at this

/-- **Nothing is lost**: the tokens are together the text. -/
theorem flatMap_tokenize (text : String) :
    (tokenize text).flatMap (fun t => t.text.toList) = text.toList :=
  (tokensFrom_spec text.toList 0).2

end SourceRename
