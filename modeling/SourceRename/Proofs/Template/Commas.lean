import Mathlib.Data.List.Chain
import SourceRename.Proofs.Syntax.Geometry
import SourceRename.Template.Change

/-!
# Arguments and commas

An argument list that is written as usual has its arguments in parentheses, with commas between them
and blanks wherever one likes (`Site.Written`).  If one argument is cut out together with a comma
next to it, what is left is such a row again; if it is cut out alone, it is not, unless there is no
other argument (`Site.Written.outside_iff`):

    (a, x, b)    cut to    (a, b)    and not to    (a, , b)

A cut may take a comma and a blank in front of the argument, or a comma and a blank behind it
(`CutAt`).  That these two characters are the comma of the list is seen from the text, in which
nothing but blanks stands between the argument and the comma or parenthesis next to it.
-/

namespace SourceRename

open Template (separator)

structure IsComma (t : Token) : Prop where
  kind : t.kind = .comma
  text : t.text = ","

/-- Arguments one by one, with commas between them. -/
inductive Listed : List Site → List Element → Prop
  | none : Listed [] []
  | one (a : Site) : Listed [a] [.node a]
  | more (a b : Site) {comma : Token} {bs : List Site} {es : List Element} :
      IsComma comma → Listed (b :: bs) es → Listed (a :: b :: bs) (.node a :: .token comma :: es)

/-- Arguments with a comma behind them, if there are any. -/
inductive Followed : List Site → List Element → Prop
  | none : Followed [] []
  | some {args : List Site} {es : List Element} {comma : Token} :
      args ≠ [] → Listed args es → IsComma comma → Followed args (es ++ [.token comma])

inductive Preceded : List Site → List Element → Prop
  | none : Preceded [] []
  | some {args : List Site} {es : List Element} {comma : Token} :
      args ≠ [] → IsComma comma → Listed args es → Preceded args (.token comma :: es)

def Enclosed (args : List Site) (es : List Element) : Prop :=
  ∃ l r inner, es = .token l :: (inner ++ [.token r]) ∧ l.kind = .lParen ∧ l.text = "(" ∧
    r.kind = .rParen ∧ r.text = ")" ∧ Listed args inner

/-- A comma stands next to a parenthesis or to another comma. -/
def Dangles (a b : Kind) : Prop :=
  (a = .lParen ∨ a = .comma) ∧ b = .comma ∨ a = .comma ∧ b = .rParen

def Tidy (es : List Element) : Prop := (es.map Element.kind).IsChain fun a b => ¬ Dangles a b

def textOf (es : List Element) : List Char := es.flatMap Element.text

/-- What is cut out with an argument: nothing else, or a comma and a blank in front of it, or a
comma and a blank behind it. -/
inductive CutAt (text : List Char) (hole cut : Span) : Prop
  | alone : cut = hole → CutAt text hole cut
  | front : cut.start + 2 = hole.start → cut.stop = hole.stop → PartAt text cut.start separator →
      CutAt text hole cut
  | behind : cut.start = hole.start → cut.stop = hole.stop + 2 →
      PartAt text hole.stop separator → CutAt text hole cut

namespace Site

def solid (s : Site) : List Element := s.elements.filter (!·.kind.isTrivia)

/-- An argument list as one writes it: arguments in parentheses, commas between them, and nothing
else but blanks.  No argument begins with a blank. -/
structure Written (list : Site) (args : List Site) : Prop where
  row : Enclosed args list.solid
  blank : ∀ e ∈ list.elements, e.kind.isTrivia = true → e.text.all Char.isWhitespace = true
  expression : ∀ a ∈ args, a.kind.isExpression = true
  bare : ∀ a ∈ args, ∃ c cs, Tree.textAll a.children = c :: cs ∧ c.isWhitespace = false

/-- What is left of a list when a part of it is cut out, blanks aside. -/
def outside (list : Site) (cut : Span) : List Element :=
  list.solid.filter fun e => !e.span.overlaps cut

end Site

/-! ### Rows -/

variable {args front behind : List Site} {hole : Site} {es xs ys : List Element} {text : List Char}
  {list : Site} {cut : Span}

theorem Listed.head {a : Site} {as : List Site} (h : Listed (a :: as) es) :
    ∃ rest, es = .node a :: rest := by
  cases h with
  | one => exact ⟨_, rfl⟩
  | more => exact ⟨_, rfl⟩

theorem Listed.nil (h : Listed [] es) : es = [] := by
  cases h
  rfl

theorem Listed.split (h : Listed (front ++ hole :: behind) es) :
    ∃ xs ys, es = xs ++ .node hole :: ys ∧ Followed front xs ∧ Preceded behind ys := by
  induction front generalizing es with
  | nil =>
    rw [List.nil_append] at h
    cases h with
    | one => exact ⟨[], [], rfl, .none, .none⟩
    | more _ b hcomma hrest =>
      exact ⟨[], _, rfl, .none, .some (List.cons_ne_nil _ _) hcomma hrest⟩
  | cons a front ih =>
    rw [List.cons_append] at h
    generalize hargs : front ++ hole :: behind = args at h
    cases h with
    | one => exact absurd hargs (by simp)
    | @more _ b comma _ _ hcomma hrest =>
      obtain ⟨xs, ys, rfl, hxs, hys⟩ := ih (hargs ▸ hrest)
      refine ⟨.node a :: .token comma :: xs, ys, rfl, ?_, hys⟩
      cases hxs with
      | none => exact .some (List.cons_ne_nil _ _) (.one a) hcomma
      | some hne hinner hlast =>
        obtain ⟨c, cs, rfl⟩ := List.exists_cons_of_ne_nil hne
        exact .some (List.cons_ne_nil _ _) (.more a c hcomma hinner) hlast

theorem Listed.append {comma : Token} (hx : Listed front xs) (hy : Listed behind ys)
    (hfront : front ≠ []) (hbehind : behind ≠ []) (hcomma : IsComma comma) :
    Listed (front ++ behind) (xs ++ .token comma :: ys) := by
  obtain ⟨b, bs, rfl⟩ := List.exists_cons_of_ne_nil hbehind
  induction hx with
  | none => exact absurd rfl hfront
  | one a => exact .more a b hcomma hy
  | more a c hother _ ih => exact .more a c hother (ih (List.cons_ne_nil _ _))

theorem Listed.append_preceded (hx : Listed front xs) (hfront : front ≠ [])
    (hy : Preceded behind ys) : Listed (front ++ behind) (xs ++ ys) := by
  cases hy with
  | none => rwa [List.append_nil, List.append_nil]
  | some hbehind hcomma hy => exact hx.append hy hfront hbehind hcomma

theorem Followed.append_listed (hx : Followed front xs) (hy : Listed behind ys)
    (hbehind : behind ≠ []) : Listed (front ++ behind) (xs ++ ys) := by
  cases hx with
  | none => exact hy
  | some hfront hx hcomma =>
    rw [List.append_assoc, List.singleton_append]
    exact hx.append hy hfront hbehind hcomma

/-! ### Commas that dangle -/

theorem not_dangles {k : Kind} (hk : k.isExpression = true) (other : Kind) :
    ¬ Dangles k other ∧ ¬ Dangles other k := by
  constructor
  · rintro (⟨rfl | rfl, -⟩ | ⟨rfl, -⟩) <;> exact absurd hk (by decide)
  · rintro (⟨-, rfl⟩ | ⟨-, rfl⟩) <;> exact absurd hk (by decide)

theorem Listed.tidy {r : Token} (h : Listed args es)
    (hargs : ∀ a ∈ args, a.kind.isExpression = true) : Tidy (es ++ [.token r]) := by
  induction h with
  | none => exact .singleton _
  | one a => exact .cons_cons (not_dangles (hargs a List.mem_cons_self) _).1 (.singleton _)
  | more a b _ hrest ih =>
    have hfirst := hargs a List.mem_cons_self
    have hnext := hargs b (List.mem_cons_of_mem _ List.mem_cons_self)
    have htail := ih fun c hc => hargs c (List.mem_cons_of_mem _ hc)
    obtain ⟨rest, rfl⟩ := hrest.head
    exact .cons_cons (not_dangles hfirst _).1 (.cons_cons (not_dangles hnext _).2 htail)

/-- **In a row of arguments no comma dangles.** -/
theorem Enclosed.tidy (h : Enclosed args es) (hargs : ∀ a ∈ args, a.kind.isExpression = true) :
    Tidy es := by
  obtain ⟨l, r, inner, rfl, hl, -, hr, -, hlisted⟩ := h
  have htail : Tidy (inner ++ [.token r]) := hlisted.tidy hargs
  cases args with
  | nil =>
    obtain rfl := hlisted.nil
    refine .cons_cons ?_ htail
    show ¬ Dangles l.kind r.kind
    rw [hl, hr]
    rintro (⟨-, h⟩ | ⟨h, -⟩) <;> exact absurd h (by decide)
  | cons a as =>
    obtain ⟨rest, rfl⟩ := hlisted.head
    exact .cons_cons (not_dangles (hargs a List.mem_cons_self) _).2 htail

theorem not_tidy {a b : Element} (xs ys : List Element) (h : Dangles a.kind b.kind) :
    ¬ Tidy (xs ++ a :: b :: ys) := by
  intro htidy
  rw [Tidy, List.map_append, List.map_cons, List.map_cons] at htidy
  exact (List.isChain_append_cons_cons.1 htidy).2.1 h

/-- If one of the arguments is gone and no comma with it, a comma dangles. -/
theorem not_tidy_of_gone {l r : Token} (hl : l.kind = .lParen) (hr : r.kind = .rParen)
    (hx : Followed front xs) (hy : Preceded behind ys) (hsome : front ++ behind ≠ []) :
    ¬ Tidy ((.token l :: xs) ++ (ys ++ [.token r])) := by
  cases hx with
  | none =>
    cases hy with
    | none => exact absurd rfl hsome
    | some _ hcomma _ => exact not_tidy [] _ (.inl ⟨.inl hl, hcomma.kind⟩)
  | @some _ inner last _ _ hlast =>
    cases hy with
    | none =>
      have : (.token l :: (inner ++ [.token last])) ++ ([] ++ [.token r]) =
          (.token l :: inner) ++ .token last :: .token r :: [] := by simp
      rw [this]
      exact not_tidy _ _ (.inr ⟨hlast.kind, hr⟩)
    | @some _ rest comma _ hcomma _ =>
      have : (.token l :: (inner ++ [.token last])) ++ (.token comma :: rest ++ [.token r]) =
          (.token l :: inner) ++ .token last :: .token comma :: (rest ++ [.token r]) := by simp
      rw [this]
      exact not_tidy _ _ (.inl ⟨.inr hlast.kind, hcomma.kind⟩)

/-! ### The characters next to an argument -/

/-- Blanks in front of an argument, and the sign in front of these. -/
theorem front_of_separator {us zs blanks : List Char} {sign : Char}
    (h : us ++ separator = zs ++ [sign] ++ blanks) (hsign : sign.isWhitespace = false)
    (hblanks : ∀ c ∈ blanks, c.isWhitespace = true) : sign = ',' ∧ blanks = [' '] ∧ us = zs := by
  have hseparator : us ++ separator = us ++ [','] ++ [' '] := by
    rw [List.append_assoc]
    rfl
  rw [hseparator] at h
  rcases List.eq_nil_or_concat blanks with rfl | ⟨init, last, rfl⟩
  · rw [List.append_nil] at h
    obtain ⟨-, hlast⟩ := List.append_inj' h rfl
    rw [← (List.cons.inj hlast).1] at hsign
    exact absurd hsign (by decide)
  · rw [List.concat_eq_append, ← List.append_assoc] at h
    obtain ⟨h, hlast⟩ := List.append_inj' h rfl
    rcases List.eq_nil_or_concat init with rfl | ⟨inner, blank, rfl⟩
    · rw [List.append_nil] at h
      obtain ⟨hus, hsame⟩ := List.append_inj' h rfl
      refine ⟨(List.cons.inj hsame).1.symm, ?_, hus⟩
      rw [List.concat_eq_append, List.nil_append, hlast]
    · rw [List.concat_eq_append, ← List.append_assoc] at h
      obtain ⟨-, hcomma⟩ := List.append_inj' h rfl
      have := hblanks blank (by simp)
      rw [← (List.cons.inj hcomma).1] at this
      exact absurd this (by decide)

theorem behind_of_separator {us zs blanks : List Char} {sign : Char}
    (h : separator ++ us = blanks ++ sign :: zs)
    (hblanks : ∀ c ∈ blanks, c.isWhitespace = true) :
    sign = ',' ∧ blanks = [] ∧ zs = ' ' :: us := by
  cases blanks with
  | nil =>
    obtain ⟨hsign, hrest⟩ := List.cons.inj h
    exact ⟨hsign.symm, rfl, hrest.symm⟩
  | cons c cs =>
    have := hblanks c List.mem_cons_self
    rw [← (List.cons.inj h).1] at this
    exact absurd this (by decide)

/-! ### Where children stand -/

namespace Site

theorem start_of_elementsFrom {above : List Place} {start : Nat} {ts : List Tree} {e : Element}
    (h : elementsFrom above start ts = xs ++ e :: ys) :
    e.span.start = start + byteLength (textOf xs) := by
  induction ts generalizing start xs with
  | nil => exact absurd h (by simp [elementsFrom])
  | cons t ts ih =>
    obtain ⟨f, hcons, hstart, hstop, htext, -⟩ := elementsFrom_cons above start t ts
    rw [hcons] at h
    cases xs with
    | nil =>
      obtain ⟨rfl, -⟩ := List.cons.inj h
      exact hstart
    | cons x xs =>
      obtain ⟨rfl, hrest⟩ := List.cons.inj h
      have hwidth := f.stop_eq
      rw [ih hrest, textOf, textOf, List.flatMap_cons, byteLength_append]
      omega

theorem start_of_between {above : List Place} {start : Nat} {ts : List Tree} {a b : Element}
    {mid : List Element} (h : elementsFrom above start ts = xs ++ a :: (mid ++ b :: ys)) :
    b.span.start = a.span.stop + byteLength (textOf mid) := by
  have hrow : xs ++ a :: (mid ++ b :: ys) = (xs ++ a :: mid) ++ b :: ys := by simp
  have ha := start_of_elementsFrom h
  have hb := start_of_elementsFrom (h.trans hrow)
  have hstop := a.stop_eq
  have htext : textOf (xs ++ a :: mid) = textOf xs ++ a.text ++ textOf mid := by simp [textOf]
  rw [htext, byteLength_append, byteLength_append] at hb
  omega

theorem textOf_elementsFrom (above : List Place) (start : Nat) (ts : List Tree) :
    textOf (elementsFrom above start ts) = Tree.textAll ts := by
  induction ts generalizing start with
  | nil => rfl
  | cons t ts ih =>
    obtain ⟨e, hcons, -, -, htext, -⟩ := elementsFrom_cons above start t ts
    rw [hcons, textOf, List.flatMap_cons, htext, ← textOf, ih, Tree.textAll]

theorem StandsIn.split {e : Element} (h : list.StandsIn text)
    (he : list.elements = xs ++ e :: ys) : ∃ us vs, text = us ++ e.text ++ (textOf ys ++ vs) ∧
      byteLength us = e.span.start ∧ ∃ us', us = us' ++ textOf xs := by
  obtain ⟨us, vs, htext, hus⟩ := h.part
  have hstart := start_of_elementsFrom he
  have hall := textOf_elementsFrom list.ancestors list.start list.children
  rw [← elements, he] at hall
  refine ⟨us ++ textOf xs, vs, ?_, ?_, us, rfl⟩
  · rw [htext, ← hall]
    simp [textOf]
  · rw [byteLength_append, hus, hstart]

/-- The children in front of an argument and those behind it.  Blanks aside, there is a comma or a
parenthesis on either side. -/
structure Around (list : Site) (front : List Site) (hole : Site) (behind : List Site) (l r : Token)
    (xs ys pre post : List Element) : Prop where
  elements : list.elements = pre ++ .node hole :: post
  pre : pre.filter (!·.kind.isTrivia) = .token l :: xs
  post : post.filter (!·.kind.isTrivia) = ys ++ [.token r]
  opening : l.kind = .lParen ∧ l.text = "("
  closing : r.kind = .rParen ∧ r.text = ")"
  front : Followed front xs
  behind : Preceded behind ys

theorem Written.around (h : list.Written (front ++ hole :: behind)) :
    ∃ l r xs ys pre post, list.Around front hole behind l r xs ys pre post := by
  obtain ⟨l, r, inner, hsolid, hl, hltext, hr, hrtext, hlisted⟩ := h.row
  obtain ⟨xs, ys, rfl, hxs, hys⟩ := hlisted.split
  have hrow : list.solid = (.token l :: xs) ++ (.node hole :: (ys ++ [.token r])) := by
    rw [hsolid]
    simp
  obtain ⟨pre, rest, helements, hpre, hrest⟩ := List.filter_eq_append_iff.1 hrow
  obtain ⟨blanks, post, rfl, hblanks, -, hpost⟩ := List.filter_eq_cons_iff.1 hrest
  refine ⟨l, r, xs, ys, pre ++ blanks, post, ⟨by rw [helements, List.append_assoc], ?_, hpost,
    ⟨hl, hltext⟩, ⟨hr, hrtext⟩, hxs, hys⟩⟩
  rw [List.filter_append, hpre, List.filter_eq_nil_iff.2 hblanks, List.append_nil]

/-- Of a row of children in order, those remain that a cut does not reach. -/
theorem filter_overlaps {taken : List Element}
    (hbefore : ∀ e ∈ xs, e.span.stop ≤ cut.start)
    (htaken : ∀ e ∈ taken, e.span.overlaps cut = true)
    (hbehind : ∀ e ∈ ys, cut.stop ≤ e.span.start) :
    (xs ++ taken ++ ys).filter (fun e => !e.span.overlaps cut) = xs ++ ys := by
  have hkept : ∀ {es : List Element}, (∀ e ∈ es, e.span.overlaps cut = false) →
      es.filter (fun e => !e.span.overlaps cut) = es := by
    intro es hes
    exact List.filter_eq_self.2 fun e he => by rw [hes e he]; rfl
  have hclear : ∀ e : Element, e.span.stop ≤ cut.start ∨ cut.stop ≤ e.span.start →
      e.span.overlaps cut = false := by
    intro e he
    rw [Bool.eq_false_iff, ne_eq, Span.overlaps_iff]
    omega
  have hgone : taken.filter (fun e => !e.span.overlaps cut) = [] :=
    List.filter_eq_nil_iff.2 fun e he => by rw [htaken e he]; decide
  rw [List.filter_append, List.filter_append, hgone, List.append_nil,
    hkept fun e he => hclear e (.inl (hbefore e he)),
    hkept fun e he => hclear e (.inr (hbehind e he))]

/-! ### The comma that is cut out -/

theorem pairwise_solid (s : Site) : s.solid.Pairwise fun a b => a.span.stop ≤ b.span.start :=
  (pairwise_elementsFrom s.ancestors s.start s.children).filter _

theorem Written.textOf_blank (h : list.Written args) (blanks : List Element)
    (hmem : ∀ e ∈ blanks, e ∈ list.elements)
    (hblanks : ∀ e ∈ blanks, ¬ (!e.kind.isTrivia) = true) :
    ∀ c ∈ textOf blanks, c.isWhitespace = true := by
  intro c hc
  obtain ⟨e, he, hce⟩ := List.mem_flatMap.1 hc
  exact List.all_eq_true.1 (h.blank e (hmem e he) (by simpa using hblanks e he)) c hce

theorem Written.nonempty (h : list.Written args) {a : Site} (ha : a ∈ args) :
    a.span.start < a.span.stop := by
  obtain ⟨c, cs, htext, -⟩ := h.bare a ha
  have hstop := a.stop_eq
  have hc := c.utf8Size_pos
  rw [htext, byteLength_cons] at hstop
  omega

theorem Written.lt_start_of_blank (h : list.Written args) {b : Site} (hb : b ∈ args) {k : Token}
    {tail more : List Element} {vs after : List Char}
    (helements : list.elements = xs ++ .token k :: tail)
    (hmore : tail.filter (!·.kind.isTrivia) = .node b :: more)
    (hblank : textOf tail ++ vs = ' ' :: after) : k.span.stop < b.span.start := by
  obtain ⟨tail₁, tail₂, rfl, -, -, -⟩ := List.filter_eq_cons_iff.1 hmore
  obtain ⟨c, cs, htext, hc⟩ := h.bare b hb
  have hstart : b.span.start = k.span.stop + byteLength (textOf tail₁) :=
    start_of_between helements
  have hsome : byteLength (textOf tail₁) ≠ 0 := by
    rw [ne_eq, byteLength_eq_zero]
    intro hnil
    rw [textOf, List.flatMap_append, List.flatMap_cons, ← textOf, hnil, List.nil_append,
      Element.text, htext] at hblank
    rw [(List.cons.inj hblank).1] at hc
    exact absurd hc (by decide)
  omega

section

variable {l r : Token} {pre post : List Element}

theorem Around.solid_eq (h : list.Around front hole behind l r xs ys pre post)
    (hwritten : list.Written (front ++ hole :: behind)) :
    list.solid = (.token l :: xs) ++ (.node hole :: (ys ++ [.token r])) := by
  have hsolid : hole.kind.isTrivia = false := by
    have hhole := hwritten.expression hole (by simp)
    revert hhole
    cases hole.kind <;> decide
  rw [solid, h.elements, List.filter_append, List.filter_cons_of_pos, h.pre, h.post]
  show (!hole.kind.isTrivia) = true
  rw [hsolid]
  rfl

/-- The comma and the blank in front of an argument are the comma in front of it and a blank. -/
theorem Around.comma_in_front (h : list.Around front hole behind l r xs ys pre post)
    (hstands : list.StandsIn text) (hwritten : list.Written (front ++ hole :: behind)) {start : Nat}
    (hstart : start + 2 = hole.span.start) (hpart : PartAt text start separator) :
    ∃ comma inner, xs = inner ++ [.token comma] ∧ front ≠ [] ∧ Listed front inner ∧
      comma.span.start = start ∧ comma.span.stop = start + 1 := by
  -- the last thing in front of the argument that is not a blank
  obtain ⟨init, k, sign, hinit, hsign, hplain, hcomma⟩ : ∃ init k sign,
      .token l :: xs = init ++ [.token k] ∧ k.text.toList = [sign] ∧ sign.isWhitespace = false ∧
        (sign = ',' → ∃ inner, xs = inner ++ [.token k] ∧ front ≠ [] ∧ Listed front inner) := by
    cases h.front with
    | none =>
      refine ⟨[], l, '(', rfl, by rw [h.opening.2]; rfl, by decide, ?_⟩
      exact fun heq => absurd heq (by decide)
    | @some _ inner comma hne hinner hcomma =>
      exact ⟨.token l :: inner, comma, ',', rfl, by rw [hcomma.text]; rfl, by decide,
        fun _ => ⟨inner, rfl, hne, hinner⟩⟩
  obtain ⟨pre₁, rest, hpre, -, hrest⟩ := List.filter_eq_append_iff.1 (h.pre.trans hinit)
  obtain ⟨pre₂, blanks, rfl, -, -, hnone⟩ := List.filter_eq_cons_iff.1 hrest
  have helements : list.elements = (pre₁ ++ pre₂) ++ .token k :: (blanks ++ .node hole :: post) := by
    rw [h.elements, hpre]
    simp
  have hblank := hwritten.textOf_blank blanks (fun e he => by rw [helements]; simp [he])
    (List.filter_eq_nil_iff.1 hnone)
  -- the text in front of the argument, read in two ways
  obtain ⟨us, vs, htext, hus, us', hus'⟩ := hstands.split h.elements
  obtain ⟨before, after, htext', hbefore⟩ := hpart
  have hwidth : byteLength separator = 2 := rfl
  have hsame : before ++ separator = us := by
    refine (append_inj_of_byteLength (htext'.symm.trans (htext.trans (List.append_assoc ..))) ?_).1
    rw [byteLength_append, hus, hbefore, hwidth]
    exact hstart
  have hfront : textOf pre = textOf (pre₁ ++ pre₂) ++ [sign] ++ textOf blanks := by
    rw [hpre, textOf, textOf, textOf, ← hsign]
    simp [Element.text]
  rw [hus', hfront, ← List.append_assoc, ← List.append_assoc] at hsame
  obtain ⟨heq, hone, -⟩ := front_of_separator hsame hplain hblank
  obtain ⟨inner, hxs, hne, hinner⟩ := hcomma heq
  -- so they stand next to each other
  have hcommaWidth : byteLength [','] = 1 := rfl
  have hblankWidth : byteLength [' '] = 1 := rfl
  have hstop : k.span.stop = k.span.start + byteLength k.text.toList := (Element.token k).stop_eq
  have hhole : hole.span.start = k.span.stop + byteLength (textOf blanks) :=
    start_of_between helements
  rw [hone] at hhole
  rw [hsign, heq] at hstop
  exact ⟨k, inner, hxs, hne, hinner, by omega, by omega⟩

theorem Around.comma_behind (h : list.Around front hole behind l r xs ys pre post)
    (hstands : list.StandsIn text) (hwritten : list.Written (front ++ hole :: behind))
    (hpart : PartAt text hole.span.stop separator) :
    ∃ comma inner, ys = .token comma :: inner ∧ behind ≠ [] ∧ Listed behind inner ∧
      comma.span.start = hole.span.stop ∧ comma.span.stop = hole.span.stop + 1 ∧
      ∀ e ∈ inner ++ [.token r], hole.span.stop + 2 ≤ e.span.start := by
  -- the first thing behind the argument that is not a blank
  obtain ⟨k, more, sign, hmore, hsign, hcomma⟩ : ∃ k more sign,
      ys ++ [.token r] = .token k :: more ∧ k.text.toList = [sign] ∧
        (sign = ',' → ∃ inner, ys = .token k :: inner ∧ more = inner ++ [.token r] ∧
          behind ≠ [] ∧ Listed behind inner) := by
    cases h.behind with
    | none =>
      refine ⟨r, [], ')', rfl, by rw [h.closing.2]; rfl, ?_⟩
      exact fun heq => absurd heq (by decide)
    | @some _ inner comma hne hcomma hinner =>
      exact ⟨comma, inner ++ [.token r], ',', rfl, by rw [hcomma.text]; rfl,
        fun _ => ⟨inner, rfl, rfl, hne, hinner⟩⟩
  obtain ⟨blanks, tail, hpost, hnone, -, hrest⟩ := List.filter_eq_cons_iff.1 (h.post.trans hmore)
  have helements : list.elements = (pre ++ .node hole :: blanks) ++ .token k :: tail := by
    rw [h.elements, hpost]
    simp
  have hblank := hwritten.textOf_blank blanks (fun e he => by rw [helements]; simp [he]) hnone
  -- the text behind the argument, read in two ways
  obtain ⟨us, vs, htext, hus, -⟩ := hstands.split h.elements
  obtain ⟨before, after, htext', hbefore⟩ := hpart
  have hholestop := (Element.node hole).stop_eq
  have hbehind : textOf post = textOf blanks ++ [sign] ++ textOf tail := by
    rw [hpost, textOf, textOf, textOf, ← hsign]
    simp [Element.text]
  have hsame : separator ++ after = textOf blanks ++ sign :: (textOf tail ++ vs) := by
    have hwhole := (List.append_assoc ..).symm.trans (htext'.symm.trans htext)
    have hlength : byteLength before = byteLength (us ++ (Element.node hole).text) := by
      rw [byteLength_append, hus, hbefore]
      exact hholestop
    rw [(append_inj_of_byteLength hwhole hlength).2, hbehind]
    simp
  obtain ⟨heq, hempty, hnext⟩ := behind_of_separator hsame hblank
  obtain ⟨inner, hys, rfl, hne, hinner⟩ := hcomma heq
  -- so the comma stands right behind the argument
  have hcommaWidth : byteLength [','] = 1 := rfl
  have hrow : list.elements = pre ++ .node hole :: (blanks ++ .token k :: tail) := by
    rw [h.elements, hpost]
  have hstart : k.span.start = hole.span.stop + byteLength (textOf blanks) :=
    start_of_between hrow
  have hstop : k.span.stop = k.span.start + byteLength k.text.toList := (Element.token k).stop_eq
  rw [hempty] at hstart
  rw [hsign, heq, hcommaWidth] at hstop
  obtain ⟨b, bs, rfl⟩ := List.exists_cons_of_ne_nil hne
  obtain ⟨rest, rfl⟩ := hinner.head
  have hb : k.span.stop < b.span.start :=
    hwritten.lt_start_of_blank (by simp) helements hrest hnext
  have hb' : hole.span.stop + 2 ≤ b.span.start := by
    rw [hstop, hstart] at hb
    exact hb
  refine ⟨k, _, hys, hne, hinner, hstart, by rw [hstop, hstart]; rfl,
    List.forall_mem_cons.2 ⟨hb', ?_⟩⟩
  -- what stands behind this argument begins where the argument has ended
  have hsorted := list.pairwise_solid
  rw [h.solid_eq hwritten, hys] at hsorted
  have hbehind := (List.pairwise_cons.1 (List.pairwise_append.1 hsorted).2.1).2
  intro e he
  have hbe := (List.pairwise_cons.1 (List.pairwise_cons.1 hbehind).2).1 e he
  have hbspan := b.span.start_le_stop
  exact Nat.le_trans hb' (Nat.le_trans hbspan hbe)

/-! ### What is left of a list -/

variable (h : list.Around front hole behind l r xs ys pre post)
  (hwritten : list.Written (front ++ hole :: behind))

include h hwritten

/-- The children of a list in front of an argument end before it begins, and those behind it begin
after it has ended. -/
theorem Around.apart :
    (Element.token l :: xs).Pairwise (fun a b => a.span.stop ≤ b.span.start) ∧
      (∀ e ∈ Element.token l :: xs, e.span.stop ≤ hole.span.start) ∧
      ∀ e ∈ ys ++ [Element.token r], hole.span.stop ≤ e.span.start := by
  have hrow := list.pairwise_solid
  rw [h.solid_eq hwritten] at hrow
  obtain ⟨hpre, hpost, hcross⟩ := List.pairwise_append.1 hrow
  exact ⟨hpre, fun e he => hcross e he _ List.mem_cons_self, (List.pairwise_cons.1 hpost).1⟩

theorem Around.outside_alone :
    list.outside hole.span = (.token l :: xs) ++ (ys ++ [.token r]) := by
  obtain ⟨-, hpre, hpost⟩ := h.apart hwritten
  have hwide := hwritten.nonempty (a := hole) (by simp)
  have hself : ∀ e ∈ [Element.node hole], e.span.overlaps hole.span = true := by
    intro e he
    obtain rfl := List.mem_singleton.1 he
    rw [Span.overlaps_iff, Element.span]
    omega
  rw [outside, h.solid_eq hwritten, ← filter_overlaps hpre hself hpost]
  simp

theorem Around.enclosed_front (hstands : list.StandsIn text)
    (hstart : cut.start + 2 = hole.span.start) (hstop : cut.stop = hole.span.stop)
    (hpart : PartAt text cut.start separator) :
    Enclosed (front ++ behind) (list.outside cut) := by
  obtain ⟨comma, inner, rfl, hne, hinner, hcstart, hcstop⟩ :=
    h.comma_in_front hstands hwritten hstart hpart
  obtain ⟨hrow, -, hpost⟩ := h.apart hwritten
  have hwide := hwritten.nonempty (a := hole) (by simp)
  have hbefore : ∀ e ∈ Element.token l :: inner, e.span.stop ≤ cut.start := by
    intro e he
    rw [← hcstart]
    exact (List.pairwise_append.1 hrow).2.2 e he (.token comma) List.mem_cons_self
  have htaken : ∀ e ∈ [Element.token comma, .node hole], e.span.overlaps cut = true := by
    simp only [List.forall_mem_cons, List.not_mem_nil, false_imp_iff, implies_true, and_true,
      Span.overlaps_iff, Element.span]
    omega
  have hleft : list.outside cut = .token l :: (inner ++ ys ++ [.token r]) := by
    rw [outside, h.solid_eq hwritten]
    have := filter_overlaps hbefore htaken (hstop ▸ hpost)
    simpa using this
  exact ⟨l, r, _, hleft, h.opening.1, h.opening.2, h.closing.1, h.closing.2,
    hinner.append_preceded hne h.behind⟩

theorem Around.enclosed_behind (hstands : list.StandsIn text)
    (hstart : cut.start = hole.span.start) (hstop : cut.stop = hole.span.stop + 2)
    (hpart : PartAt text hole.span.stop separator) :
    Enclosed (front ++ behind) (list.outside cut) := by
  obtain ⟨comma, inner, rfl, hne, hinner, hcstart, hcstop, hpost⟩ :=
    h.comma_behind hstands hwritten hpart
  obtain ⟨-, hpre, -⟩ := h.apart hwritten
  have hwide := hwritten.nonempty (a := hole) (by simp)
  have htaken : ∀ e ∈ [Element.node hole, .token comma], e.span.overlaps cut = true := by
    simp only [List.forall_mem_cons, List.not_mem_nil, false_imp_iff, implies_true, and_true,
      Span.overlaps_iff, Element.span]
    omega
  have hleft : list.outside cut = .token l :: (xs ++ inner ++ [.token r]) := by
    rw [outside, h.solid_eq hwritten]
    have := filter_overlaps (hstart ▸ hpre) htaken (hstop ▸ hpost)
    simpa using this
  exact ⟨l, r, _, hleft, h.opening.1, h.opening.2, h.closing.1, h.closing.2,
    h.front.append_listed hinner hne⟩

end

/-- **What is left of a list when an argument is cut out** is a list of the other arguments if a
comma goes with the argument or if there are no others.  Otherwise a comma dangles. -/
theorem Written.outside_iff (hwritten : list.Written (front ++ hole :: behind))
    (hstands : list.StandsIn text) (hcut : CutAt text hole.span cut) :
    (Enclosed (front ++ behind) (list.outside cut) ↔ cut ≠ hole.span ∨ front ++ behind = []) ∧
      (Tidy (list.outside cut) ↔ cut ≠ hole.span ∨ front ++ behind = []) := by
  obtain ⟨l, r, xs, ys, pre, post, h⟩ := hwritten.around
  have htidy : Enclosed (front ++ behind) (list.outside cut) → Tidy (list.outside cut) := by
    refine fun henclosed => henclosed.tidy fun a ha => hwritten.expression a ?_
    rcases List.mem_append.1 ha with ha | ha
    · exact List.mem_append_left _ ha
    · exact List.mem_append_right _ (List.mem_cons_of_mem _ ha)
  -- it is enough to have a row where one is expected, and a comma that dangles elsewhere
  suffices hcases : Enclosed (front ++ behind) (list.outside cut) ∧
      (cut ≠ hole.span ∨ front ++ behind = []) ∨
      ¬ Tidy (list.outside cut) ∧ ¬ (cut ≠ hole.span ∨ front ++ behind = []) by
    rcases hcases with ⟨henclosed, hcond⟩ | ⟨hnot, hcond⟩
    · exact ⟨iff_of_true henclosed hcond, iff_of_true (htidy henclosed) hcond⟩
    · exact ⟨iff_of_false (fun henclosed => hnot (htidy henclosed)) hcond, iff_of_false hnot hcond⟩
  cases hcut with
  | front hstart hstop hpart =>
    refine .inl ⟨h.enclosed_front hwritten hstands hstart hstop hpart, .inl ?_⟩
    rintro rfl
    omega
  | behind hstart hstop hpart =>
    refine .inl ⟨h.enclosed_behind hwritten hstands hstart hstop hpart, .inl ?_⟩
    rintro rfl
    omega
  | alone hcut =>
    subst hcut
    rw [h.outside_alone hwritten]
    by_cases hnone : front ++ behind = []
    · refine .inl ⟨?_, .inr hnone⟩
      obtain ⟨rfl, rfl⟩ := List.append_eq_nil_iff.1 hnone
      cases h.front with
      | none =>
        cases h.behind with
        | none => exact ⟨l, r, [], rfl, h.opening.1, h.opening.2, h.closing.1, h.closing.2, .none⟩
        | some hne => exact absurd rfl hne
      | some hne => exact absurd rfl hne
    · refine .inr ⟨not_tidy_of_gone h.opening.1 h.closing.1 h.front h.behind hnone, ?_⟩
      exact not_or_intro (fun hne => hne rfl) hnone

end Site

end SourceRename
