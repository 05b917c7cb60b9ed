import SourceRename.Proofs.Syntax.Boundaries

/-!
# Reading one token after the other

What a token takes of a text is there: no rule for a token reaches behind the end of the text, and
neither does any of the ways to go on where no rule applies (`Lexeme.read_le`).  So a text is read
piece by piece,

    c :: lexeme ++ rest,    Lexeme.read c (lexeme ++ rest) = (kind, lexeme.length),

until nothing is left, and there is one way to do so (`reads_iff`).  What is cut off at a time has
at least the character `c`, whatever that is, and so reading comes to an end on every text
(`tokenize_lossless`). -/

namespace SourceRename

/-! ### No token reaches behind the end -/

namespace Lexeme

variable {c quote : Char} {cs : List Char} {n : Nat}

/-- What a rule takes behind `n` characters is there if the rule never takes more than there is. -/
theorem add_drop_le {rule : List Char → Nat} (hrule : ∀ cs, rule cs ≤ cs.length)
    (h : n ≤ cs.length) : n + rule (cs.drop n) ≤ cs.length := by
  have hrest := hrule (cs.drop n)
  rw [List.length_drop] at hrest
  omega

theorem succ_le_of_head?_drop (h : (cs.drop n).head? = some c) : n + 1 ≤ cs.length := by
  rw [List.head?_drop] at h
  exact (List.getElem?_eq_some_iff.1 h).1

theorem run_le (p : Char → Bool) (cs : List Char) : run p cs ≤ cs.length :=
  (List.takeWhile_sublist p).length_le

theorem optional_le (letters cs : List Char) : optional letters cs ≤ cs.length := by
  cases cs with
  | nil => exact Nat.le_refl 0
  | cons c cs =>
    rw [optional, List.length_cons]
    split
    · omega
    · omega

theorem exponent_le (cs : List Char) : exponent cs ≤ cs.length := by
  have hletter := optional_le ['e', 'E'] cs
  rw [exponent]
  split
  · omega
  · have hsign := add_drop_le (optional_le ['+', '-']) (show 1 ≤ cs.length by omega)
    have hdigits := add_drop_le (run_le isDigit) hsign
    dsimp only
    split
    · omega
    · exact hdigits

theorem number_le (c : Char) (cs : List Char) : (number c cs).2 ≤ cs.length := by
  have hwhole := run_le isDigitOrLow cs
  rw [number]
  dsimp only
  split
  · next h =>
    have hletter := optional_le ['x', 'X'] cs
    have hhex := add_drop_le (run_le isHexOrLow) (show 1 ≤ cs.length by omega)
    exact add_drop_le (optional_le _) hhex
  · split
    · next h =>
      have hpoint := succ_le_of_head?_drop h.1
      have hfraction := add_drop_le (run_le isDigitOrLow) hpoint
      have hpower := add_drop_le exponent_le hfraction
      rw [List.drop_drop]
      exact add_drop_le (optional_le _) hpower
    · have hpower := add_drop_le exponent_le hwhole
      split
      · rw [List.drop_drop]
        exact add_drop_le (optional_le _) hpower
      · exact add_drop_le (optional_le _) hwhole

theorem quotedBody_le (quote : Char) (cs : List Char) : quotedBody quote cs ≤ cs.length := by
  fun_induction quotedBody quote cs with
  | case1 => omega
  | case2 => omega
  | case3 => omega
  | case4 => simp only [List.length_cons]; omega
  | case5 => omega
  | case6 => simp only [List.length_cons]; omega

theorem quoted_le (kind : Kind) (quote : Char) (cs : List Char) :
    (quoted kind quote cs).2 ≤ cs.length := by
  rw [quoted]
  split
  · next hclosed => exact succ_le_of_head?_drop hclosed
  · exact quotedBody_le quote cs

theorem quotedName_le (cs : List Char) : (quotedName cs).2 ≤ cs.length := by
  rw [quotedName]
  split
  · next hclosed => exact succ_le_of_head?_drop hclosed.2
  · exact run_le _ cs

theorem commentBody_le (cs : List Char) : commentBody cs ≤ cs.length := by
  fun_induction commentBody cs with
  | case1 => omega
  | case2 => simp only [List.length_cons]; omega
  | case3 => simp only [List.length_cons]; omega

theorem sign_le (c : Char) (cs : List Char) : (sign c cs).2 ≤ cs.length := by
  rw [sign]
  split
  · next s hs =>
    have hfound : s.1.toList.isPrefixOf (c :: cs) = true := by
      have hprefix := List.find?_some hs
      exact hprefix
    have hlength := (List.isPrefixOf_iff_prefix.1 hfound).length_le
    rw [String.length_toList, List.length_cons] at hlength
    show s.1.length - 1 ≤ cs.length
    omega
  · exact Nat.zero_le _

/-- **A token takes no more than there is**, also where it is not closed or begins with a character
that no token begins with. -/
theorem read_le (c : Char) (cs : List Char) : (read c cs).2 ≤ cs.length := by
  rw [read]
  by_cases hblank : isBlank c = true
  · rw [if_pos hblank]
    exact run_le isBlank cs
  rw [if_neg hblank]
  by_cases hname : isNameStart c = true
  · rw [if_pos hname]
    exact run_le isNamePart cs
  rw [if_neg hname]
  by_cases hdigit : isDigit c = true
  · rw [if_pos hdigit]
    exact number_le c cs
  rw [if_neg hdigit]
  by_cases hstring : c = '\x22'
  · rw [if_pos hstring]
    exact quoted_le _ c cs
  rw [if_neg hstring]
  by_cases hchar : c = '\x27'
  · rw [if_pos hchar]
    exact quoted_le _ c cs
  rw [if_neg hchar]
  by_cases hbacktick : c = backtick
  · rw [if_pos hbacktick]
    exact quotedName_le cs
  rw [if_neg hbacktick]
  by_cases hline : c = '/' ∧ cs.head? = some '/'
  · rw [if_pos hline]
    exact run_le _ cs
  rw [if_neg hline]
  by_cases hcomment : c = '/' ∧ cs.head? = some '*'
  · rw [if_pos hcomment]
    have hstar : 0 + 1 ≤ cs.length := succ_le_of_head?_drop hcomment.2
    exact add_drop_le commentBody_le hstar
  rw [if_neg hcomment]
  exact sign_le c cs

end Lexeme

/-! ### Token after token -/

/-- The rest of a text, from an offset on, is read token by token. -/
inductive Reads : Nat → List Char → List Token → Prop
  /-- Nothing is left. -/
  | nil (offset : Nat) : Reads offset [] []
  /-- The first token is what the rules take. -/
  | cons {offset : Nat} {kind : Kind} {c : Char} {lexeme rest : List Char} {ts : List Token} :
      Lexeme.read c (lexeme ++ rest) = (kind, lexeme.length) →
      Reads (offset + byteLength (c :: lexeme)) rest ts →
      Reads offset (c :: lexeme ++ rest) (⟨kind, String.ofList (c :: lexeme), offset⟩ :: ts)

theorem Reads.eq_tokensFrom {offset : Nat} {cs : List Char} {ts : List Token}
    (h : Reads offset cs ts) : ts = tokensFrom offset 0 cs := by
  induction h with
  | nil offset => rfl
  | @cons offset kind c lexeme rest ts hread _ ih =>
    rw [List.cons_append, tokensFrom, hread]
    dsimp only
    rw [List.take_left, tokensFrom_skip, List.take_left, List.drop_left, ih, byteLength_cons,
      Nat.add_assoc]

theorem reads_tokensFrom (offset : Nat) (cs : List Char) :
    Reads offset cs (tokensFrom offset 0 cs) := by
  induction hlength : cs.length using Nat.strongRecOn generalizing offset cs with
  | ind n ih =>
    cases cs with
    | nil => exact .nil offset
    | cons c cs =>
      obtain ⟨lexeme, rest, rfl, htaken⟩ : ∃ lexeme rest, cs = lexeme ++ rest ∧
          lexeme.length = (Lexeme.read c cs).2 := by
        refine ⟨cs.take (Lexeme.read c cs).2, cs.drop (Lexeme.read c cs).2,
          (List.take_append_drop _ cs).symm, ?_⟩
        exact List.length_take_of_le (Lexeme.read_le c cs)
      have hread : Lexeme.read c (lexeme ++ rest) =
          ((Lexeme.read c (lexeme ++ rest)).1, lexeme.length) := by rw [htaken]
      -- at least the character `c` is taken
      have hshorter : rest.length < n := by
        rw [← hlength, List.length_cons, List.length_append]
        omega
      have hreads : Reads offset (c :: lexeme ++ rest) _ :=
        Reads.cons hread (ih rest.length hshorter _ rest rfl)
      rw [← List.cons_append]
      exact hreads.eq_tokensFrom ▸ hreads

theorem Reads.length_le {offset : Nat} {cs : List Char} {ts : List Token}
    (h : Reads offset cs ts) : ts.length ≤ cs.length := by
  induction h with
  | nil offset => exact Nat.le_refl 0
  | cons _ _ ih =>
    rw [List.cons_append, List.length_cons, List.length_cons, List.length_append]
    omega

/-- A string and a comment that are not closed, and a character that begins no token. -/
example : (tokenize "\"a\n#/*b").map (fun t => (t.kind, t.text)) =
    [(.error, "\"a"), (.whitespace, "\n"), (.error, "#"), (.error, "/*b")] := by
  decide +kernel

end SourceRename
