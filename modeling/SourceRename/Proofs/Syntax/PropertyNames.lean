import Mathlib.Data.List.TakeWhile
import SourceRename.Proofs.Syntax.Lexemes
import SourceRename.Text.Naming

/-!
# Which property names are identifiers

A text is read as one identifier if it begins like a name, goes on like one and is no keyword
(`tokenize_eq_ident_iff`).  The property behind a getter need not be such a text, though the
getter's name is one (`Naming.tokenize_property_iff`):

    `getName` ↦ `name`      `getURLReader` ↦ `urlReader`      `isOpen` ↦ `isOpen`
    `get1` ↦ `1`            `getClass` ↦ `class`

What stands behind `get` is only asked to go on with an identifier, so it may be a digit or a mark
that begins none; the capitals that are lowered may spell a keyword; and there are identifiers with
letters that are newer than those a text is read with.  Apart from these three the property is one
identifier. -/

namespace SourceRename

/-! ### Texts that are one identifier -/

namespace Lexeme

variable {c quote : Char} {cs : List Char}

theorem number_ne_ident (c : Char) (cs : List Char) : (number c cs).1 ≠ .ident := by
  rw [number]
  dsimp only
  split
  · simp
  · split
    · simp
    · split
      · simp
      · simp

theorem quoted_ne_ident {kind : Kind} (hkind : kind ≠ .ident) (quote : Char) (cs : List Char) :
    (quoted kind quote cs).1 ≠ .ident := by
  rw [quoted]
  split
  · exact hkind
  · simp

theorem sign_ne_ident (c : Char) (cs : List Char) : (sign c cs).1 ≠ .ident := by
  have hsigns : ∀ s ∈ signs, s.2 ≠ .ident := by decide
  rw [sign]
  split
  · next s hs => exact hsigns s (List.mem_of_find?_eq_some hs)
  · simp

theorem isNameStart_of_read (hc : c ≠ backtick) (h : (read c cs).1 = .ident) :
    isNameStart c = true := by
  by_contra hstart
  revert h
  rw [read, if_neg hstart, if_neg hc]
  split
  · simp
  · split
    · exact number_ne_ident c cs
    · split
      · exact quoted_ne_ident (by decide) c cs
      · split
        · exact quoted_ne_ident (by decide) c cs
        · split
          · simp
          · split
            · simp
            · exact sign_ne_ident c cs

theorem isBlank_eq_false_of_start (h : isNameStart c = true) : isBlank c = false := by
  rw [Bool.eq_false_iff]
  intro hblank
  rw [isBlank] at hblank
  simp only [Bool.or_eq_true, beq_iff_eq] at hblank
  rcases hblank with (((rfl | rfl) | rfl) | rfl) | rfl
  · exact absurd h (by decide)
  · exact absurd h (by decide)
  · exact absurd h (by decide)
  · exact absurd h (by decide)
  · exact absurd h (by decide)

theorem read_of_start (h : isNameStart c = true) (cs : List Char) : read c cs =
    (wordKind (String.ofList (c :: cs.takeWhile isNamePart)) (cs.dropWhile isNamePart),
      (cs.takeWhile isNamePart).length) := by
  rw [read, isBlank_eq_false_of_start h, if_neg Bool.false_ne_true, if_pos h]

theorem wordKind_nil (word : String) : wordKind word [] = Kind.ofWord word := rfl

end Lexeme

/-- **A text is read as one identifier** if and only if it begins like a name, goes on like one and
is no keyword. -/
theorem tokenize_eq_ident_iff {c : Char} {cs : List Char} (hc : c ≠ Lexeme.backtick) :
    tokenize (String.ofList (c :: cs)) = [⟨.ident, String.ofList (c :: cs), 0⟩] ↔
      isNameStart c = true ∧ (∀ d ∈ cs, isNamePart d = true) ∧
        Kind.ofWord (String.ofList (c :: cs)) = .ident := by
  rw [tokenize, String.toList_ofList, tokensFrom]
  dsimp only
  constructor
  · intro h
    obtain ⟨hfirst, -⟩ := List.cons.inj h
    obtain ⟨hkind, htext, -⟩ := Token.mk.inj hfirst
    have htaken := (List.cons.inj (String.ofList_injective htext)).2
    have hstart := Lexeme.isNameStart_of_read hc hkind
    rw [Lexeme.read_of_start hstart] at hkind htaken
    dsimp only at hkind htaken
    have hall : cs.takeWhile isNamePart = cs := by
      refine (List.takeWhile_prefix _).eq_of_length_le ?_
      have hlength := congrArg List.length htaken
      rw [List.length_take] at hlength
      omega
    have hparts := List.takeWhile_eq_self_iff.1 hall
    rw [hall, List.dropWhile_eq_nil_iff.2 hparts, Lexeme.wordKind_nil] at hkind
    exact ⟨hstart, hparts, hkind⟩
  · rintro ⟨hstart, hparts, hword⟩
    rw [Lexeme.read_of_start hstart, List.takeWhile_eq_self_iff.2 hparts,
      List.dropWhile_eq_nil_iff.2 hparts, Lexeme.wordKind_nil, hword, tokensFrom_skip,
      List.take_length, List.drop_length]
    rfl

/-! ### Lowered capitals -/

namespace Naming

variable {c : Char} {cs rest : List Char} {name p : String}

theorem isAsciiLetter_of_isCapital (h : isCapital c = true) :
    isAsciiLetter c = true ∧ isAsciiLetter c.toLower = true := by
  have hall : ∀ n : Fin 26, isAsciiLetter (Char.ofNat (65 + n)) = true ∧
      isAsciiLetter (Char.ofNat (65 + n)).toLower = true := by decide
  obtain ⟨hfirst, hlast⟩ := Bool.and_eq_true_iff.1 h
  have hlow : 65 ≤ c.toNat := of_decide_eq_true hfirst
  have hhigh : c.toNat ≤ 90 := of_decide_eq_true hlast
  have hc := hall ⟨c.toNat - 65, by omega⟩
  dsimp only at hc
  rwa [Nat.add_sub_cancel' hlow, Char.ofNat_toNat] at hc

theorem isNameStart_of_isCapital (h : isCapital c = true) :
    isNameStart c = true ∧ isNameStart c.toLower = true := by
  obtain ⟨hc, hlower⟩ := isAsciiLetter_of_isCapital h
  simp [isNameStart, hc, hlower]

/-- **Lowering the capitals a name begins with** changes a front that is made of capitals. -/
theorem lowerLead_eq (cs : List Char) : ∃ front back, cs = front ++ back ∧
    (∀ c ∈ front, isCapital c = true) ∧ lowerLead cs = front.map Char.toLower ++ back := by
  have hcs := (List.takeWhile_append_dropWhile (p := isCapital) (l := cs)).symm
  have hrun : ∀ c ∈ cs.takeWhile isCapital, isCapital c = true := fun c hc =>
    List.mem_takeWhile_imp hc
  rw [lowerLead]
  split
  · next hnone =>
    rw [hnone] at hcs
    exact ⟨[], _, hcs, nofun, rfl⟩
  · next hrest _ =>
    rw [hrest, List.append_nil] at hcs
    exact ⟨_, [], by rw [List.append_nil, ← hcs], hrun, by rw [List.append_nil]⟩
  · next c hone _ =>
    exact ⟨[c], _, hone ▸ hcs, hone ▸ hrun, rfl⟩
  · next hsome _ _ =>
    -- the last capital of several begins the next word
    have hlast : (cs.takeWhile isCapital).dropLast ++
        (cs.takeWhile isCapital).getLast?.toList = cs.takeWhile isCapital := by
      rw [List.getLast?_eq_some_getLast hsome, Option.toList_some]
      exact List.dropLast_concat_getLast hsome
    refine ⟨(cs.takeWhile isCapital).dropLast, _, ?_, fun c hc => hrun c
      (List.dropLast_subset _ hc), List.append_assoc _ _ _⟩
    rw [← List.append_assoc, hlast]
    exact hcs

/-- What is lowered begins like a name where the text does or begins with a capital, and goes on
like a name where the text does. -/
theorem lowerLead_cons (d : Char) (ds : List Char) : ∃ e es, lowerLead (d :: ds) = e :: es ∧
    (isNameStart e = true ↔ isNameStart d = true) ∧ (e = d ∨ isNameStart e = true) ∧
    ((∀ x ∈ es, isNamePart x = true) ↔ ∀ x ∈ ds, isNamePart x = true) := by
  obtain ⟨front, back, hparts, hcapitals, hlower⟩ := lowerLead_eq (d :: ds)
  cases front with
  | nil =>
    obtain rfl : d :: ds = back := hparts
    exact ⟨d, ds, hlower, Iff.rfl, .inl rfl, Iff.rfl⟩
  | cons c front =>
    obtain ⟨rfl, hds⟩ : d = c ∧ ds = front ++ back := List.cons.inj hparts
    obtain ⟨hd, hfront⟩ := List.forall_mem_cons.1 hcapitals
    have hstart := isNameStart_of_isCapital hd
    refine ⟨d.toLower, front.map Char.toLower ++ back, hlower, iff_of_true hstart.2 hstart.1,
      .inr hstart.2, ?_⟩
    have hboth : ∀ x ∈ front, isNamePart x = true ∧ isNamePart x.toLower = true := fun x hx =>
      have hx := isNameStart_of_isCapital (hfront x hx)
      ⟨isNamePart_of_start hx.1, isNamePart_of_start hx.2⟩
    rw [hds, List.forall_mem_append, List.forall_mem_append, List.forall_mem_map]
    exact and_congr_left' (iff_of_true (fun x hx => (hboth x hx).2) fun x hx => (hboth x hx).1)

/-! ### Properties -/

/-- The property behind a getter: the whole name behind `is`, or what stands behind `get`. -/
theorem propertyOfGetter?_cases (h : propertyOfGetter? name = some p) :
    (∃ rest, name.toList = 'i' :: 's' :: rest ∧ p = name) ∨
      ∃ d ds, name.toList = 'g' :: 'e' :: 't' :: d :: ds ∧ isIdentifierPart d = true ∧
        p = String.ofList (lowerLead (d :: ds)) := by
  rw [propertyOfGetter?] at h
  split at h
  · next rest hrest =>
    split at h
    · exact .inl ⟨rest, dropStart?_eq_some_iff.1 hrest, (Option.some.inj h).symm⟩
    · simp at h
  · split at h
    · next rest hrest =>
      split at h
      · next hword =>
        cases rest with
        | nil => exact absurd hword Bool.false_ne_true
        | cons d ds =>
          exact .inr ⟨d, ds, dropStart?_eq_some_iff.1 hrest, (Bool.and_eq_true_iff.1 hword).1,
            (Option.some.inj h).symm⟩
      · simp at h
    · simp at h

theorem mem_of_mem_property (h : propertyOfGetter? name = some p) (hc : c ∈ p.toList) :
    c ∈ name.toList ∨ isAsciiLetter c = true := by
  rcases propertyOfGetter?_cases h with ⟨-, -, rfl⟩ | ⟨d, ds, hname, -, rfl⟩
  · exact .inl hc
  · obtain ⟨front, back, hparts, hcapitals, hlower⟩ := lowerLead_eq (d :: ds)
    rw [String.toList_ofList, hlower] at hc
    rcases List.mem_append.1 hc with hc | hc
    · obtain ⟨x, hx, rfl⟩ := List.mem_map.1 hc
      exact .inr (isAsciiLetter_of_isCapital (hcapitals x hx)).2
    · rw [hname, hparts]
      exact .inl (by simp [hc])

/-- **When a property is one identifier.**  The property behind a getter is read as one identifier
if and only if the name of the getter has only characters that names are made of, what stands behind
`get` begins like a name, and the property is no keyword. -/
theorem tokenize_property_iff (h : propertyOfGetter? name = some p) :
    tokenize p = [⟨.ident, p, 0⟩] ↔ (∀ c ∈ name.toList, isNamePart c = true) ∧
      (∀ c cs, name.toList = 'g' :: 'e' :: 't' :: c :: cs → isNameStart c = true) ∧
      Kind.ofWord p = .ident := by
  rcases propertyOfGetter?_cases h with ⟨rest, hname, rfl⟩ | ⟨d, ds, hname, hd, rfl⟩
  · obtain rfl : p = String.ofList ('i' :: 's' :: rest) := by rw [← hname, String.ofList_toList]
    have hi : isNameStart 'i' = true ∧ isNamePart 'i' = true := by decide
    rw [tokenize_eq_ident_iff (by decide), String.toList_ofList]
    simp only [List.forall_mem_cons, hi, true_and]
    refine and_congr_right fun _ => ⟨fun hword => ⟨?_, hword⟩, And.right⟩
    exact fun c cs heq => absurd (List.cons.inj heq).1 (by decide)
  · obtain ⟨e, es, hlower, hstart, hfirst, hparts⟩ := lowerLead_cons d ds
    have hbacktick : e ≠ Lexeme.backtick := by
      rintro rfl
      rcases hfirst with rfl | hfirst
      · exact absurd hd (by decide)
      · exact absurd hfirst (by decide)
    have hget : isNamePart 'g' = true ∧ isNamePart 'e' = true ∧ isNamePart 't' = true := by decide
    rw [hlower, tokenize_eq_ident_iff hbacktick, hname, hstart, hparts]
    simp only [List.forall_mem_cons, hget, true_and]
    constructor
    · rintro ⟨hd, hds, hword⟩
      refine ⟨⟨isNamePart_of_start hd, hds⟩, ?_, hword⟩
      rintro c cs heq
      obtain ⟨rfl, -⟩ : d = c ∧ ds = cs := by simpa using heq
      exact hd
    · rintro ⟨⟨-, hds⟩, hd, hword⟩
      exact ⟨hd d ds rfl, hds, hword⟩

/-- An acronym at the beginning of the property is lowered. -/
theorem property_urlReader : propertyOfGetter? "getURLReader" = some "urlReader" ∧
    tokenize "urlReader" = [⟨.ident, "urlReader", 0⟩] := by
  have h : propertyOfGetter? "getURLReader" = some "urlReader" := by decide +kernel
  have hparts : "getURLReader".toList.all isNamePart = true := by decide +kernel
  refine ⟨h, (tokenize_property_iff h).2 ⟨List.all_eq_true.1 hparts, ?_, by decide +kernel⟩⟩
  intro c cs heq
  obtain ⟨rfl, -⟩ : 'U' = c ∧ _ = cs := by simpa using heq
  decide

/-- **A digit and a keyword**: the names are identifiers like those of getters, and the properties
are none. -/
theorem property_no_identifier :
    (isIdentifier "get1" = true ∧ propertyOfGetter? "get1" = some "1" ∧
      tokenize "1" = [⟨.integer, "1", 0⟩]) ∧
    isIdentifier "getClass" = true ∧ propertyOfGetter? "getClass" = some "class" ∧
      tokenize "class" = [⟨.classKw, "class", 0⟩] := by
  decide +kernel

end Naming

end SourceRename
