import SourceRename.Proofs.Syntax.Lexemes
import SourceRename.Syntax.Literal

/-!
# Reading written string literals

What is written between quotes does not end the literal: a quote, a backslash or a newline is not
written as it is, and what stands for it begins with a backslash, behind which the rule for literals
takes any letter (`escapeChar_cases`).  So a written literal is read as one token, whatever follows
(`Reads.literal`), and the value of that is the text that was written (`value?_literal`).  So what a
new literal says is what it was written for, and the tokens behind it are what they were
(`Quoted.literal_round_trip`). -/

namespace SourceRename

namespace Quoted

theorem escapeChar_cases (c : Char) : (∃ letter, escapeChar c = ['\\', letter] ∧ letter ≠ '\n') ∨
    (escapeChar c = [c] ∧ c ≠ quote ∧ c ≠ '\\' ∧ c ≠ '\n') := by
  rw [escapeChar]
  cases hfound : letters.find? (·.1 = c) with
  | some entry =>
    have hletters : ∀ e ∈ letters, e.2 ≠ '\n' := by decide
    exact .inl ⟨entry.2, rfl, hletters entry (List.mem_of_find?_eq_some hfound)⟩
  | none =>
    have hnone : ∀ e ∈ letters, ¬ e.1 = c := by
      intro e he heq
      exact List.find?_eq_none.1 hfound e he (decide_eq_true heq)
    refine .inr ⟨rfl, ?_, ?_, ?_⟩
    · exact Ne.symm (hnone (quote, quote) (by decide))
    · exact Ne.symm (hnone ('\\', '\\') (by decide))
    · exact Ne.symm (hnone ('\n', 'n') (by decide))

theorem value?_literal (text : String) : value? (literal text) = some text := by
  have hlast : (text.toList.flatMap escapeChar ++ [quote]).getLast? = some quote := by
    rw [List.getLast?_append]
    rfl
  rw [value?, literal, String.toList_ofList, List.cons_append]
  dsimp only
  rw [if_pos ⟨rfl, hlast⟩, List.dropLast_concat, unescape_escape, Option.map_some,
    String.ofList_toList]

theorem literal_injective {s t : String} (h : literal s = literal t) : s = t := by
  have hvalue := value?_literal s
  rw [h, value?_literal] at hvalue
  exact (Option.some.inj hvalue).symm

end Quoted

namespace Lexeme

/-- A literal goes on until the quote behind what was written. -/
theorem quotedBody_escape (cs rest : List Char) :
    quotedBody Quoted.quote (cs.flatMap Quoted.escapeChar ++ Quoted.quote :: rest) =
      (cs.flatMap Quoted.escapeChar).length := by
  induction cs with
  | nil =>
    rw [List.flatMap_nil, List.nil_append, quotedBody]
    · rfl
    · exact fun h _ => absurd h (by decide)
    · exact fun _ _ h _ => absurd h (by decide)
  | cons c cs ih =>
    rw [List.flatMap_cons, List.length_append, List.append_assoc]
    rcases Quoted.escapeChar_cases c with ⟨letter, hc, hletter⟩ | ⟨hc, hquote, hbackslash, hnewline⟩
    · rw [hc, List.cons_append, List.cons_append, List.nil_append, quotedBody, if_neg hletter, ih]
      rfl
    · rw [hc, List.singleton_append, quotedBody]
      · rw [if_neg (not_or.2 ⟨hquote, hnewline⟩), ih]
        rfl
      · exact fun h _ => absurd h hbackslash
      · exact fun _ _ h _ => absurd h hbackslash

theorem read_quote (cs rest : List Char) :
    read Quoted.quote (cs.flatMap Quoted.escapeChar ++ Quoted.quote :: rest) =
      (.string, (cs.flatMap Quoted.escapeChar).length + 1) := by
  have hquoted : read Quoted.quote (cs.flatMap Quoted.escapeChar ++ Quoted.quote :: rest) =
      quoted .string Quoted.quote (cs.flatMap Quoted.escapeChar ++ Quoted.quote :: rest) := rfl
  rw [hquoted, quoted, quotedBody_escape, List.drop_left, if_pos (List.head?_cons ..)]

end Lexeme

namespace Reads

variable {offset : Nat} {rest : List Char} {ts : List Token}

theorem literal (text : String)
    (h : Reads (offset + byteLength (Quoted.literal text).toList) rest ts) :
    Reads offset ((Quoted.literal text).toList ++ rest)
      (⟨.string, Quoted.literal text, offset⟩ :: ts) := by
  have hchars : (Quoted.literal text).toList =
      Quoted.quote :: (text.toList.flatMap Quoted.escapeChar ++ [Quoted.quote]) := by
    rw [Quoted.literal, String.toList_ofList, List.cons_append]
  have hread : Lexeme.read Quoted.quote
      (text.toList.flatMap Quoted.escapeChar ++ [Quoted.quote] ++ rest) =
      (.string, (text.toList.flatMap Quoted.escapeChar ++ [Quoted.quote]).length) := by
    rw [List.append_assoc, List.singleton_append, Lexeme.read_quote, List.length_append]
    rfl
  rw [hchars] at h ⊢
  exact .cons hread h

theorem lParen (h : Reads (offset + 1) rest ts) :
    Reads offset ('(' :: rest) (⟨.lParen, "(", offset⟩ :: ts) := by
  have hread : Lexeme.read '(' ([] ++ rest) = (.lParen, 0) := rfl
  exact .cons hread h

theorem rParen (h : Reads (offset + 1) rest ts) :
    Reads offset (')' :: rest) (⟨.rParen, ")", offset⟩ :: ts) := by
  have hread : Lexeme.read ')' ([] ++ rest) = (.rParen, 0) := rfl
  exact .cons hread h

end Reads

/-! ### Literals in a tree -/

theorem Site.stringValue?_of_token {s : Site} {quoted : String}
    (h : s.children = [.token .string quoted]) : s.stringValue? = Quoted.value? quoted := by
  have htoken : s.literalToken? = some ⟨.string, quoted, s.start⟩ := by
    rw [literalToken?, directTokens, elements, h]
    rfl
  rw [stringValue?, htoken]
  rfl

/-- **What is written as a literal is read again.**  A text is written between quotes, each
character by itself.  What is written is one token of a text, wherever it begins and whatever
follows, and in particular of the text that is nothing else.  Its value is the text that was
written, and so is the value of a node that has this token. -/
theorem Quoted.literal_round_trip (text : String) :
    literal text = "\"" ++ escape text ++ "\"" ∧
    tokenize (literal text) = [⟨.string, literal text, 0⟩] ∧
    value? (literal text) = some text ∧
    (∀ (start : Nat) (rest : List Char), tokensFrom start 0 ((literal text).toList ++ rest) =
      ⟨.string, literal text, start⟩ ::
        tokensFrom (start + (literal text).utf8ByteSize) 0 rest) ∧
    ∀ (start : Nat) (above : List Place),
      (Site.mk ⟨.literal, [.token .string (literal text)], start⟩ above).stringValue? = some text := by
  have hread (start : Nat) (rest : List Char) :
      Reads start ((literal text).toList ++ rest) (⟨.string, literal text, start⟩ ::
        tokensFrom (start + byteLength (literal text).toList) 0 rest) :=
    .literal text (reads_tokensFrom _ rest)
  refine ⟨?_, ?_, value?_literal text, fun start rest => ?_, fun start above => ?_⟩
  · rw [← String.toList_inj, literal, escape]
    simp [quote]
  · have hwhole := (hread 0 []).eq_tokensFrom
    rw [List.append_nil] at hwhole
    exact hwhole.symm
  · rw [← byteLength_toList]
    exact (hread start rest).eq_tokensFrom.symm
  · rw [Site.stringValue?_of_token rfl, value?_literal]

/-- A backslash in front of the quote is written as two, so the quote still ends the literal. -/
example : tokenize (Quoted.literal "a\\" ++ ";") =
    [⟨.string, "\"a\\\\\"", 0⟩, ⟨.semicolon, ";", 5⟩] := by
  decide +kernel

end SourceRename
