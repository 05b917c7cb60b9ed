import SourceRename.Proofs.Template.Scope

/-!
# Operators and casts in a match

Two operations are laid over each other if their first signs agree; the signs behind are not
compared.  The tokenizer cuts shifts into several signs, so that the brackets of type arguments
close; every other operator is one sign.  So a shift is taken for a comparison, and shifts are taken
for each other (`Confused`):

    x > y  ↦  x <= y    turns    a >> b    into    a <= b

Of a cast only the operand is compared, and never the type:

    (int) x  ↦  f(x)    turns    (long) a    into    f(a)

`signs_of_meets` says what is known of operations and casts that are laid over each other.
-/

namespace SourceRename

def Site.signs (s : Site) : List Token := s.directTokens.filter (·.kind.isPunctuation)

def Site.operatorSigns (s : Site) : List Token :=
  match s.firstExpression?, s.secondExpression? with
  | some first, some second => s.signs.filter fun t =>
      first.span.stop ≤ t.span.start && t.span.stop ≤ second.span.start
  | _, _ => []

namespace Template

variable {t : Template} {file : SourceFile} {bound : Bound} {site p e : Site}
  {around : List (Site × Site)} {captures : List Capture} {m : Match} {f g : String}

def IsOperation (kind : Kind) : Prop := kind = .assignment ∨ kind = .binaryExpr

/-- The operators that may stand in an assignment or in a binary expression. -/
def operators : Kind → List String
  | .assignment =>
    ["=", "+=", "-=", "*=", "/=", "%=", "&=", "|=", "^=", "<<=", ">>=", ">>>="]
  | .binaryExpr =>
    ["+", "-", "*", "/", "%", "<<", ">>", ">>>", "<", ">", "<=", ">=", "==", "!=", "&", "^", "|",
      "&&", "||"]
  | _ => []

/-- Two operators begin with the same token. -/
def Confused (f g : String) : Prop :=
  f ≠ g ∧ ∃ alike ∈ [["<", "<<"], [">", ">>", ">>>"], [">>=", ">>>="]], f ∈ alike ∧ g ∈ alike

/-- The punctuation of the node is an operator between its operands. -/
def Spells (s : Site) (operator : String) : Prop :=
  s.operatorSigns = s.signs ∧ s.signs.map (·.text) = (tokenize operator).map (·.text)

/-- What two operands capture, which may be absent on both sides. -/
def Operands (t : Template) (file : SourceFile) (bound : Bound) :
    Option Site → Option Site → List Capture → Prop
  | none, none, captures => captures = []
  | some p, some e, captures => t.collect file bound p e = some captures
  | _, _, _ => False

/-! ### Operators -/

theorem operator?_eq (s : Site) : s.operator? = s.signs.head? := List.head?_filter.symm

theorem eq_of_tokenize (h : (tokenize f).map (·.text) = (tokenize g).map (·.text)) : f = g := by
  have hflat : ∀ s : String, ((tokenize s).map (·.text)).flatMap String.toList = s.toList := by
    intro s
    rw [List.flatMap_map, flatMap_tokenize]
  rw [← String.toList_inj, ← hflat f, h, hflat g]

theorem first_sign_iff {kind : Kind} (hf : f ∈ operators kind) (hg : g ∈ operators kind) :
    (tokenize f).head?.map (·.text) = (tokenize g).head?.map (·.text) ↔ f = g ∨ Confused f g := by
  have hall : ∀ ops ∈ [operators .assignment, operators .binaryExpr], ∀ f ∈ ops, ∀ g ∈ ops,
      ((tokenize f).head?.map (·.text) = (tokenize g).head?.map (·.text) ↔ f = g ∨ Confused f g) := by
    unfold Confused
    decide +kernel
  unfold operators at hf hg
  split at hf
  · exact hall _ List.mem_cons_self f hf g hg
  · exact hall _ (List.mem_cons_of_mem _ List.mem_cons_self) f hf g hg
  · exact absurd hf List.not_mem_nil

/-- The same first sign makes two operators the same, or confuses them. -/
theorem signs_eq_iff {kind : Kind} (hf : f ∈ operators kind) (hg : g ∈ operators kind)
    (hp : Spells p f) (he : Spells e g)
    (hfirst : p.signs.head?.map (·.text) = e.signs.head?.map (·.text)) :
    p.operatorSigns.map (·.text) = e.operatorSigns.map (·.text) ↔ ¬ Confused f g := by
  have hhead : (tokenize f).head?.map (·.text) = (tokenize g).head?.map (·.text) := by
    rw [← List.head?_map, ← List.head?_map, ← hp.2, ← he.2, List.head?_map, List.head?_map, hfirst]
  rw [hp.1, he.1, hp.2, he.2]
  constructor
  · exact fun h hconfused => hconfused.1 (eq_of_tokenize h)
  · intro h
    rw [((first_sign_iff hf hg).1 hhead).resolve_right h]

/-! ### Operands -/

theorem operands_iff {p? e? : Option Site} : t.Operands file bound p? e? captures ↔
    ∃ pairs rows, Alignment.optional p? e? = some pairs ∧
      (pairs.mapM fun x => t.collect file bound x.1 x.2) = some rows ∧ rows.flatten = captures := by
  cases p? with
  | none =>
    cases e? with
    | none => exact ⟨fun h => ⟨[], [], rfl, rfl, h.symm⟩, by rintro ⟨-, -, ⟨⟩, ⟨⟩, h⟩; exact h.symm⟩
    | some e => exact ⟨False.elim, nofun⟩
  | some p =>
    cases e? with
    | none => exact ⟨False.elim, nofun⟩
    | some e =>
      constructor
      · intro h
        refine ⟨[(p, e)], [captures], rfl, ?_, List.flatten_singleton⟩
        rw [List.mapM_cons, show t.collect file bound p e = some captures from h]
        rfl
      · rintro ⟨-, rows, ⟨⟩, hrows, rfl⟩
        obtain ⟨row, rest, hrow, hrest, rfl⟩ := mapM_cons_eq_some hrows
        have hnone : rest = [] := (Option.some.inj hrest).symm
        rw [hnone, List.flatten_singleton]
        exact hrow

/-- Operations are laid over each other if their first signs are the same and their operands are
laid over each other. -/
theorem collect_operation_iff (hop : IsOperation p.kind) (hkind : p.kind = e.kind) :
    t.collect file bound p e = some captures ↔
      p.operator?.map (·.text) = e.operator?.map (·.text) ∧
      ∃ left right, t.Operands file bound p.firstExpression? e.firstExpression? left ∧
        t.Operands file bound p.secondExpression? e.secondExpression? right ∧
        left ++ right = captures := by
  have hhole : t.hole? p = none := hole?_of_kind_ne (by rcases hop with h | h <;> simp [h])
  have halign : t.align file bound p e = alignOperation bound p e := by
    rw [align, if_pos hkind]
    rcases hop with h | h
    · rw [h]
    · rw [h]
  rw [collect_eq_some_iff hhole, halign]
  constructor
  · rintro ⟨a, rows, ha, hrows, rfl⟩
    unfold alignOperation at ha
    split at ha
    · next hsign =>
      obtain ⟨lefts, hlefts, ha⟩ := Option.bind_eq_some_iff.1 ha
      obtain ⟨rights, hrights, ha⟩ := Option.bind_eq_some_iff.1 ha
      obtain rfl := Option.some.inj ha
      rw [List.mapM_append] at hrows
      obtain ⟨left, hleft, hrows⟩ := Option.bind_eq_some_iff.1 hrows
      obtain ⟨right, hright, hrows⟩ := Option.bind_eq_some_iff.1 hrows
      obtain rfl := Option.some.inj hrows
      refine ⟨beq_iff_eq.1 hsign, left.flatten, right.flatten,
        operands_iff.2 ⟨lefts, left, hlefts, hleft, rfl⟩,
        operands_iff.2 ⟨rights, right, hrights, hright, rfl⟩, ?_⟩
      rw [List.flatten_append, List.append_nil]
    · simp at ha
  · rintro ⟨hsign, left, right, hleft, hright, rfl⟩
    obtain ⟨lefts, leftRows, hlefts, hleftRows, rfl⟩ := operands_iff.1 hleft
    obtain ⟨rights, rightRows, hrights, hrightRows, rfl⟩ := operands_iff.1 hright
    have hsame : sameToken p.operator? e.operator? = true := beq_iff_eq.2 hsign
    refine ⟨⟨lefts ++ rights, bound, []⟩, leftRows ++ rightRows, ?_, ?_, ?_⟩
    · rw [alignOperation, if_pos hsame, hlefts, hrights]
      rfl
    · rw [List.mapM_append, hleftRows, hrightRows]
      rfl
    · rw [List.flatten_append, List.append_nil]

theorem collect_cast_iff (hp : p.kind = .castExpr) (he : e.kind = .castExpr) :
    t.collect file bound p e = some captures ↔
      t.Operands file bound p.lastExpression? e.lastExpression? captures := by
  have halign : t.align file bound p e =
      Alignment.ofOptional bound p.lastExpression? e.lastExpression? := by
    rw [align, if_pos (hp.trans he.symm), hp]
  rw [collect_eq_some_iff (hole?_of_kind_ne (by simp [hp])), halign, operands_iff]
  constructor
  · rintro ⟨a, rows, ha, hrows, h⟩
    obtain ⟨pairs, hpairs, rfl⟩ := Option.map_eq_some_iff.1 ha
    exact ⟨pairs, rows, hpairs, hrows, (List.append_nil _).symm.trans h⟩
  · rintro ⟨pairs, rows, hpairs, hrows, h⟩
    exact ⟨_, rows, Option.map_eq_some_iff.2 ⟨pairs, hpairs, rfl⟩, hrows,
      (List.append_nil _).trans h⟩

/-! ### Nodes that meet -/

/-- **Operators and casts in a match.**  Operations that meet have the same first sign, and casts
only meet casts; nothing else is asked but that the operands are laid over each other.  If both
sides spell operators, these are the same up to the shifts that are confused. -/
theorem signs_of_meets (hm : t.find? file site = some m) (hmeets : t.Meets file site around p e) :
    (IsOperation p.kind → e.kind = p.kind ∧
      p.signs.head?.map (·.text) = e.signs.head?.map (·.text) ∧
      (∀ f ∈ operators p.kind, ∀ g ∈ operators p.kind, Spells p f → Spells e g →
        (p.operatorSigns.map (·.text) = e.operatorSigns.map (·.text) ↔ ¬ Confused f g)) ∧
      ∃ left right, t.Operands file (scopeOf around) p.firstExpression? e.firstExpression? left ∧
        t.Operands file (scopeOf around) p.secondExpression? e.secondExpression? right ∧
        left ++ right ⊆ m.captures) ∧
    (p.kind = .castExpr → e.kind = .castExpr ∧
      ∃ captures, t.Operands file (scopeOf around) p.lastExpression? e.lastExpression? captures ∧
        captures ⊆ m.captures) := by
  obtain ⟨hcollect, -, -⟩ := find?_eq_some hm
  obtain ⟨captures, hcs, hsub⟩ := collect_of_meets hcollect hmeets
  have hkind : p.kind ≠ .referenceExpr → p.kind = e.kind := by
    intro hname
    obtain ⟨a, -, halign, -⟩ := (collect_eq_some_iff (hole?_of_kind_ne hname)).1 hcs
    exact (covers_of_align halign).1
  constructor
  · intro hop
    have hsame : p.kind = e.kind := hkind (by rcases hop with h | h <;> simp [h])
    obtain ⟨hsign, left, right, hleft, hright, rfl⟩ := (collect_operation_iff hop hsame).1 hcs
    rw [operator?_eq, operator?_eq] at hsign
    exact ⟨hsame.symm, hsign, fun f hf g hg hp he => signs_eq_iff hf hg hp he hsign, left, right,
      hleft, hright, hsub⟩
  · intro hcast
    have he : e.kind = .castExpr := (hkind (by simp [hcast])).symm.trans hcast
    exact ⟨he, captures, (collect_cast_iff hcast he).1 hcs, hsub⟩

/-! ### A shift and a cast -/

def comparison : Tree := operation "x" (.token .gt ">") "y"

/-- The template that turns `x>y` into `x<=y`. -/
def comparisonTemplate : Template :=
  ⟨"m", [⟨"x", none⟩, ⟨"y", none⟩], false, comparison, .empty, ["", "<=", ""]⟩

def shift : Tree := .node .binaryExpr [loneName "a", .token .gt ">", .token .gt ">", loneName "b"]

def shiftMatch : Match := ⟨.ofWidth 0 4,
  [⟨0, .ofWidth 0 1, .single⟩, ⟨1, .ofWidth 3 1, .single⟩]⟩

theorem find?_shift : comparisonTemplate.find? (expressionFile shift) (expressionSite shift) =
    some shiftMatch := by
  have hcollect : comparisonTemplate.collect (expressionFile shift) [] comparisonTemplate.root
      (expressionSite shift) = some shiftMatch.captures := by
    refine collect_of_rows [[⟨0, .ofWidth 0 1, .single⟩], [⟨1, .ofWidth 3 1, .single⟩]] rfl rfl
      (.cons ?_ (.cons ?_ .nil)) rfl
    · rw [collect_of_hole rfl]
      rfl
    · rw [collect_of_hole rfl]
      rfl
  rw [find?_eq, hcollect]
  rfl

def castOf (type operand : String) : Tree :=
  .node .castExpr [.token .lParen "(", .node .typeUse [.token .ident type], .token .rParen ")",
    loneName operand]

def castType (cast : Site) : List String :=
  ((cast.child? .typeUse).map fun type => type.tokens.map (·.text)).getD []

/-- The template that turns `(int)x` into `f(x)`. -/
def castTemplate : Template :=
  ⟨"m", [⟨"x", none⟩, ⟨"y", none⟩], false, castOf "int" "x", .empty, ["f(", ")"]⟩

def castMatch : Match := ⟨.ofWidth 0 7, [⟨0, .ofWidth 6 1, .single⟩]⟩

theorem find?_cast : castTemplate.find? (expressionFile (castOf "long" "a"))
    (expressionSite (castOf "long" "a")) = some castMatch := by
  have hcollect : castTemplate.collect (expressionFile (castOf "long" "a")) [] castTemplate.root
      (expressionSite (castOf "long" "a")) = some castMatch.captures := by
    refine collect_of_rows [castMatch.captures] rfl rfl (.cons ?_ .nil) rfl
    rw [collect_of_hole rfl]
    rfl
  rw [find?_eq, hcollect]
  rfl

/-- **A shift is taken for a comparison**, and a cast to `long` for one to `int`. -/
theorem shift_confused :
    (fileReturning marked comparison).Lossless ∧
    (fileReturning [] (operation "x" (.token .ltEq "<=") "y")).Lossless ∧
    (expressionFile shift).Lossless ∧
    readAll (fileReturning marked comparison)
      (fileReturning [] (operation "x" (.token .ltEq "<=") "y")) "M" = .ok [comparisonTemplate] ∧
    expressionSite shift ∈ (expressionFile shift).sites ∧
    comparisonTemplate.find? (expressionFile shift) (expressionSite shift) = some shiftMatch ∧
    (¬ ∀ around p e, comparisonTemplate.Meets (expressionFile shift) (expressionSite shift)
      around p e → IsOperation p.kind →
        p.operatorSigns.map (·.text) = e.operatorSigns.map (·.text)) ∧
    (Edits.ofCalls (comparisonTemplate.changes shiftMatch)).applyTo? (expressionFile shift).text =
      some ("a<=b", []) ∧
    (fileReturning marked (castOf "int" "x")).Lossless ∧
    (fileReturning [] (callOf "f" [loneName "x"])).Lossless ∧
    (expressionFile (castOf "long" "a")).Lossless ∧
    readAll (fileReturning marked (castOf "int" "x"))
      (fileReturning [] (callOf "f" [loneName "x"])) "M" = .ok [castTemplate] ∧
    expressionSite (castOf "long" "a") ∈ (expressionFile (castOf "long" "a")).sites ∧
    castTemplate.find? (expressionFile (castOf "long" "a")) (expressionSite (castOf "long" "a")) =
      some castMatch ∧
    (¬ ∀ around p e, castTemplate.Meets (expressionFile (castOf "long" "a"))
      (expressionSite (castOf "long" "a")) around p e → p.kind = .castExpr →
        castType p = castType e) ∧
    (Edits.ofCalls (castTemplate.changes castMatch)).applyTo?
      (expressionFile (castOf "long" "a")).text = some ("f(a)", []) := by
  refine ⟨⟨_, rfl, by decide +kernel⟩, ⟨_, rfl, by decide +kernel⟩, ⟨_, rfl, by decide +kernel⟩, rfl,
    List.mem_cons_of_mem _ List.mem_cons_self, find?_shift, ?_, ?_,
    ⟨_, rfl, by decide +kernel⟩, ⟨_, rfl, by decide +kernel⟩, ⟨_, rfl, by decide +kernel⟩, rfl,
    List.mem_cons_of_mem _ List.mem_cons_self, find?_cast, ?_, ?_⟩
  · intro h
    have hsame := h _ _ _ .root (.inr rfl)
    exact absurd hsame (by decide +kernel)
  · have hsorted : shiftMatch.captures.mergeSort comesBefore = shiftMatch.captures :=
      List.mergeSort_of_pairwise (by decide)
    rw [changes, hsorted]
    decide +kernel
  · intro h
    have hsame := h _ _ _ .root rfl
    exact absurd hsame (by decide +kernel)
  · have hsorted : castMatch.captures.mergeSort comesBefore = castMatch.captures :=
      List.mergeSort_singleton _
    rw [changes, hsorted]
    decide +kernel

/-- The signs of `x-y` and of `a-b` are the same. -/
theorem difference_signs :
    (differenceTemplate ["", "+", ""]).find? differenceOfNames differenceSite =
      some differenceMatch ∧
    (differenceTemplate ["", "+", ""]).Meets differenceOfNames differenceSite []
      (differenceTemplate ["", "+", ""]).root differenceSite ∧
    ((differenceTemplate ["", "+", ""]).root.operatorSigns.map (·.text) = ["-"]) ∧
    differenceSite.operatorSigns.map (·.text) = ["-"] := by
  have hm := find?_difference .empty ["", "+", ""]
  have hsigns : (differenceTemplate ["", "+", ""]).root.operatorSigns.map (·.text) = ["-"] := by
    decide +kernel
  obtain ⟨-, -, hsame, -⟩ := (signs_of_meets hm .root).1 (.inr rfl)
  have hspells : ∀ s ∈ [(differenceTemplate ["", "+", ""]).root, differenceSite],
      Spells s "-" := by
    unfold Spells
    decide +kernel
  refine ⟨hm, .root, hsigns, ?_⟩
  rw [← hsigns]
  refine ((hsame "-" (by decide) "-" (by decide) (hspells _ List.mem_cons_self)
    (hspells _ (List.mem_cons_of_mem _ List.mem_cons_self))).2 ?_).symm
  exact fun hconfused => hconfused.1 rfl

end Template

end SourceRename
