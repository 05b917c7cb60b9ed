import SourceRename.Proofs.Syntax.Lossless
import SourceRename.Syntax.View

/-!
# Where nodes lie

The children of a node follow each other from its start to its end, so of any two nodes of a file
one lies in a child of the other, or one ends before the other starts:

    s.preorder.Pairwise fun p q => q ∈ p.below ∨ p.span.stop ≤ q.span.start

(`pairwise_preorder`).  In a file that was resolved each node and each token stands in the text
where its span says (`SourceFile.Lossless.standsIn`).

Everything is proved on `Site.preorder`, by induction on the children (`Site.rec_nodes`): what lies
below a node is what its children list (`below_eq`).
-/

namespace SourceRename

namespace Element

def span : Element → Span
  | .token t => t.span
  | .node s => s.span

def text : Element → List Char
  | .token t => t.text.toList
  | .node s => Tree.textAll s.children

def tokens : Element → List Token
  | .token t => [t]
  | .node s => s.tokens

theorem stop_eq (e : Element) : e.span.stop = e.span.start + byteLength e.text := by
  cases e with
  | token t => rw [text, byteLength_toList]; rfl
  | node s => rw [text, ← Tree.widthAll_eq]; rfl

end Element

theorem rel_or_rel_of_pairwise {α : Type} {R : α → α → Prop} {xs : List α} (h : xs.Pairwise R)
    {a b : α} (ha : a ∈ xs) (hb : b ∈ xs) (hne : a ≠ b) : R a b ∨ R b a := by
  induction xs with
  | nil => simp at ha
  | cons x xs ih =>
    obtain ⟨hx, hxs⟩ := List.pairwise_cons.1 h
    rcases List.mem_cons.1 ha with hax | hax
    · rcases List.mem_cons.1 hb with hbx | hbx
      · exact absurd (hax.trans hbx.symm) hne
      · exact .inl (hax ▸ hx b hbx)
    · rcases List.mem_cons.1 hb with hbx | hbx
      · exact .inr (hbx ▸ hx a hax)
      · exact ih hxs hax hbx

/-- One of the spans ends before the other one begins. -/
def Span.Apart (a b : Span) : Prop := a.stop ≤ b.start ∨ b.stop ≤ a.start

theorem Span.Apart.of_within {a b s : Span} (h : a.Apart b)
    (hs : b.start ≤ s.start ∧ s.stop ≤ b.stop) : a.Apart s :=
  h.imp (fun h => Nat.le_trans h hs.1) fun h => Nat.le_trans hs.2 h

theorem Span.Apart.overlaps_eq_false {a b : Span} (h : a.Apart b) : a.overlaps b = false := by
  rw [Bool.eq_false_iff, ne_eq, Span.overlaps_iff]
  rcases h with h | h
  · omega
  · omega

theorem Span.not_apart_self {s : Span} (hwide : s.start < s.stop) : ¬ s.Apart s := by
  rintro (h | h)
  · omega
  · omega

namespace Site

variable {above : List Place} {start : Nat} {ts : List Tree} {s p q c : Site}

theorem stop_eq (s : Site) : s.span.stop = s.span.start + byteLength (Tree.textAll s.children) :=
  (Element.node s).stop_eq

/-! ### Children -/

theorem elementsFrom_cons (above : List Place) (start : Nat) (t : Tree) (ts : List Tree) :
    ∃ e, elementsFrom above start (t :: ts) = e :: elementsFrom above (start + t.width) ts ∧
      e.span.start = start ∧ e.span.stop = start + t.width ∧ e.text = t.text ∧
      e.tokens = t.tokens start ∧ ∀ c, e = .node c → c.above = above := by
  cases t with
  | token kind text =>
    exact ⟨.token ⟨kind, text, start⟩, rfl, rfl, rfl, rfl, rfl, nofun⟩
  | node kind children =>
    refine ⟨.node ⟨⟨kind, children, start⟩, above⟩, rfl, rfl, rfl, rfl, rfl, ?_⟩
    rintro c ⟨⟩
    rfl

theorem within_of_mem_elementsFrom {e : Element} (h : e ∈ elementsFrom above start ts) :
    start ≤ e.span.start ∧ e.span.stop ≤ start + Tree.widthAll ts := by
  induction ts generalizing start with
  | nil => simp [elementsFrom] at h
  | cons t ts ih =>
    obtain ⟨f, hcons, hstart, hstop, -⟩ := elementsFrom_cons above start t ts
    rw [hcons] at h
    rw [Tree.widthAll]
    rcases List.mem_cons.1 h with rfl | h
    · omega
    · have := ih h
      omega

theorem pairwise_elementsFrom (above : List Place) (start : Nat) (ts : List Tree) :
    (elementsFrom above start ts).Pairwise fun a b => a.span.stop ≤ b.span.start := by
  induction ts generalizing start with
  | nil => exact .nil
  | cons t ts ih =>
    obtain ⟨e, hcons, -, hstop, -⟩ := elementsFrom_cons above start t ts
    rw [hcons]
    refine List.pairwise_cons.2 ⟨?_, ih _⟩
    intro f hf
    rw [hstop]
    exact (within_of_mem_elementsFrom hf).1

theorem partAt_of_mem_elementsFrom {e : Element} (h : e ∈ elementsFrom above start ts) :
    ∃ n, e.span.start = start + n ∧ PartAt (Tree.textAll ts) n e.text := by
  induction ts generalizing start with
  | nil => simp [elementsFrom] at h
  | cons t ts ih =>
    obtain ⟨f, hcons, hstart, -, htext, -⟩ := elementsFrom_cons above start t ts
    rw [hcons] at h
    rw [Tree.textAll]
    rcases List.mem_cons.1 h with rfl | h
    · exact ⟨0, hstart, [], Tree.textAll ts, by rw [htext, List.nil_append], rfl⟩
    · obtain ⟨n, hn, before, after, hpart, hb⟩ := ih h
      refine ⟨t.width + n, by omega, t.text ++ before, after, by rw [hpart]; simp, ?_⟩
      rw [byteLength_append, ← Tree.width_eq, hb]

theorem mem_tokensAll_of_mem_elementsFrom {e : Element} (h : e ∈ elementsFrom above start ts)
    {t : Token} (ht : t ∈ e.tokens) : t ∈ Tree.tokensAll start ts := by
  induction ts generalizing start with
  | nil => simp [elementsFrom] at h
  | cons u ts ih =>
    obtain ⟨f, hcons, -, -, -, htokens, -⟩ := elementsFrom_cons above start u ts
    rw [hcons] at h
    rw [Tree.tokensAll, List.mem_append]
    rcases List.mem_cons.1 h with rfl | h
    · exact .inl (htokens ▸ ht)
    · exact .inr (ih h)

theorem above_of_mem_elementsFrom (h : Element.node c ∈ elementsFrom above start ts) :
    c.above = above := by
  induction ts generalizing start with
  | nil => simp [elementsFrom] at h
  | cons t ts ih =>
    obtain ⟨f, hcons, -, -, -, -, habove⟩ := elementsFrom_cons above start t ts
    rw [hcons] at h
    rcases List.mem_cons.1 h with h | h
    · exact habove c h.symm
    · exact ih h

theorem mem_nodes_iff : c ∈ s.nodes ↔ Element.node c ∈ s.elements := by
  rw [nodes, List.mem_filterMap]
  constructor
  · rintro ⟨e, he, hc⟩
    cases e with
    | token => simp [Element.node?] at hc
    | node d => exact Option.some.inj hc ▸ he
  · exact fun h => ⟨.node c, h, rfl⟩

theorem parent?_of_mem_nodes (h : c ∈ s.nodes) : c.parent? = some s := by
  have habove : c.above = s.toPlace :: s.above := above_of_mem_elementsFrom (mem_nodes_iff.1 h)
  rw [parent?, habove]

theorem within_of_mem_nodes (h : c ∈ s.nodes) :
    s.span.start ≤ c.span.start ∧ c.span.stop ≤ s.span.stop :=
  within_of_mem_elementsFrom (mem_nodes_iff.1 h)

theorem pairwise_nodes (s : Site) : s.nodes.Pairwise fun a b => a.span.stop ≤ b.span.start := by
  refine List.Pairwise.filterMap _ ?_ (pairwise_elementsFrom s.ancestors s.start s.children)
  intro a b hab c hc d hd
  cases a <;> cases b <;> simp_all [Element.node?, Element.span]

theorem apart_of_mem_nodes {a b : Site} (ha : a ∈ s.nodes) (hb : b ∈ s.nodes) (hne : a ≠ b) :
    a.span.Apart b.span :=
  rel_or_rel_of_pairwise s.pairwise_nodes ha hb hne

/-! ### Everything below -/

theorem preorderForest_eq (above : List Place) (start : Nat) (ts : List Tree) :
    preorderForest above start ts =
      ((elementsFrom above start ts).filterMap Element.node?).flatMap preorder := by
  induction ts generalizing start with
  | nil => rfl
  | cons t ts ih =>
    rw [preorderForest, ih]
    cases t with
    | token kind text => rfl
    | node kind children => rfl

/-- What lies below a node is what its children list. -/
theorem below_eq (s : Site) : s.below = s.nodes.flatMap preorder :=
  preorderForest_eq s.ancestors s.start s.children

theorem mem_preorder_iff : q ∈ s.preorder ↔ q = s ∨ ∃ c ∈ s.nodes, q ∈ c.preorder := by
  rw [preorder, List.mem_cons, below_eq, List.mem_flatMap]

theorem rec_nodes {P : Site → Prop} (h : ∀ s, (∀ c ∈ s.nodes, P c) → P s) (s : Site) : P s := by
  induction hn : s.size using Nat.strongRecOn generalizing s with
  | ind n ih =>
    subst hn
    exact h s fun c hc => ih c.size (size_lt_of_mem_nodes hc) c rfl

theorem within_of_mem_preorder (h : q ∈ s.preorder) :
    s.span.start ≤ q.span.start ∧ q.span.stop ≤ s.span.stop := by
  induction s using rec_nodes with
  | h s ih =>
    rcases mem_preorder_iff.1 h with rfl | ⟨c, hc, hq⟩
    · exact ⟨Nat.le_refl _, Nat.le_refl _⟩
    · have h1 := ih c hc hq
      have h2 := within_of_mem_nodes hc
      omega

theorem within_of_mem_below (h : q ∈ s.below) :
    s.span.start ≤ q.span.start ∧ q.span.stop ≤ s.span.stop :=
  within_of_mem_preorder (List.mem_cons_of_mem s h)

/-- Of two nodes, the second one lies in a child of the first one or behind it. -/
theorem pairwise_preorder (s : Site) :
    s.preorder.Pairwise fun p q => q ∈ p.below ∨ p.span.stop ≤ q.span.start := by
  induction s using rec_nodes with
  | h s ih =>
    refine List.pairwise_cons.2 ⟨fun q hq => .inl hq, ?_⟩
    rw [below_eq, List.pairwise_flatMap]
    refine ⟨ih, s.pairwise_nodes.imp fun {a b} hab p hp q hq => .inr ?_⟩
    have h1 := within_of_mem_preorder hp
    have h2 := within_of_mem_preorder hq
    omega

/-- A node is the one listed first or a child of one that is listed. -/
theorem mem_preorder_cases (h : q ∈ s.preorder) : q = s ∨ ∃ p ∈ s.preorder, q ∈ p.nodes := by
  induction s using rec_nodes with
  | h s ih =>
    rcases mem_preorder_iff.1 h with rfl | ⟨c, hc, hq⟩
    · exact .inl rfl
    · refine .inr ?_
      rcases ih c hc hq with rfl | ⟨p, hp, hq⟩
      · exact ⟨s, List.mem_cons_self, hc⟩
      · exact ⟨p, mem_preorder_iff.2 (.inr ⟨c, hc, hp⟩), hq⟩

theorem preorder_trans {r : Site} (hq : q ∈ s.preorder) (hr : r ∈ q.preorder) :
    r ∈ s.preorder := by
  induction s using rec_nodes with
  | h s ih =>
    rcases mem_preorder_iff.1 hq with rfl | ⟨c, hc, hq⟩
    · exact hr
    · exact mem_preorder_iff.2 (.inr ⟨c, hc, ih c hc hq⟩)

theorem size_le_of_mem_preorder (h : q ∈ s.preorder) : q.size ≤ s.size := by
  induction s using rec_nodes with
  | h s ih =>
    rcases mem_preorder_iff.1 h with rfl | ⟨c, hc, hq⟩
    · exact Nat.le_refl _
    · exact Nat.le_of_lt (Nat.lt_of_le_of_lt (ih c hc hq) (size_lt_of_mem_nodes hc))

theorem mem_below_iff : q ∈ s.below ↔ ∃ c ∈ s.nodes, q ∈ c.preorder := by
  rw [below_eq, List.mem_flatMap]

theorem size_lt_of_mem_below (h : q ∈ s.below) : q.size < s.size := by
  obtain ⟨c, hc, hq⟩ := mem_below_iff.1 h
  exact Nat.lt_of_le_of_lt (size_le_of_mem_preorder hq) (size_lt_of_mem_nodes hc)

theorem mem_below_of_mem_nodes (h : c ∈ s.nodes) : c ∈ s.below :=
  mem_below_iff.2 ⟨c, h, List.mem_cons_self⟩

theorem below_trans {r : Site} (hq : q ∈ s.below) (hr : r ∈ q.below) : r ∈ s.below := by
  obtain ⟨c, hc, hq⟩ := mem_below_iff.1 hq
  exact mem_below_iff.2 ⟨c, hc, preorder_trans hq (List.mem_cons_of_mem q hr)⟩

/-! ### Places around a node -/

theorem ancestors_suffix (h : q ∈ s.preorder) : s.ancestors <:+ q.ancestors := by
  induction s using rec_nodes with
  | h s ih =>
    rcases mem_preorder_iff.1 h with rfl | ⟨c, hc, hq⟩
    · exact List.suffix_refl _
    · have habove : c.ancestors = c.toPlace :: s.ancestors := by
        rw [ancestors, show c.above = s.ancestors from
          above_of_mem_elementsFrom (mem_nodes_iff.1 hc)]
      refine List.IsSuffix.trans ?_ (ih c hc hq)
      rw [habove]
      exact List.suffix_cons _ _

theorem above_of_mem_nodes (h : c ∈ s.nodes) : c.above = s.ancestors :=
  above_of_mem_elementsFrom (mem_nodes_iff.1 h)

theorem ancestors_suffix_above (h : q ∈ s.below) : s.ancestors <:+ q.above := by
  obtain ⟨c, hc, hq⟩ := mem_below_iff.1 h
  have hsuffix : s.ancestors <:+ c.above := above_of_mem_nodes hc ▸ List.suffix_refl _
  rcases List.suffix_cons_iff.1 (ancestors_suffix hq) with heq | hlong
  · rwa [← (List.cons.inj heq).2]
  · exact hsuffix.trans ((List.suffix_cons c.toPlace c.above).trans hlong)

theorem toPlace_mem_above (h : q ∈ s.below) : s.toPlace ∈ q.above :=
  (ancestors_suffix_above h).subset List.mem_cons_self

/-- Two children found around one node are the same. -/
theorem eq_of_ancestors_suffix {a b : Site} {ps : List Place} (ha : a ∈ s.nodes) (hb : b ∈ s.nodes)
    (hpa : a.ancestors <:+ ps) (hpb : b.ancestors <:+ ps) : a = b := by
  have hlen : a.ancestors.length = b.ancestors.length := by
    rw [ancestors, ancestors, List.length_cons, List.length_cons, above_of_mem_nodes ha,
      above_of_mem_nodes hb]
  have hsuffix := List.suffix_of_suffix_length_le hpa hpb (Nat.le_of_eq hlen)
  obtain ⟨hplace, habove⟩ := List.cons.inj (hsuffix.eq_of_length hlen)
  cases a
  cases b
  simp_all

theorem eq_of_mem_preorder {a b : Site} (ha : a ∈ s.nodes) (hb : b ∈ s.nodes)
    (hqa : q ∈ a.preorder) (hqb : q ∈ b.preorder) : a = b :=
  eq_of_ancestors_suffix ha hb (ancestors_suffix hqa) (ancestors_suffix hqb)

theorem mem_ofPlaces_iff {ps : List Place} : s ∈ ofPlaces ps ↔ s.ancestors <:+ ps := by
  induction ps with
  | nil =>
    rw [ofPlaces, List.suffix_nil]
    exact iff_of_false List.not_mem_nil (List.cons_ne_nil _ _)
  | cons p ps ih =>
    rw [ofPlaces, List.mem_cons, ih, List.suffix_cons_iff]
    refine or_congr_left ⟨fun h => h ▸ rfl, fun h => ?_⟩
    obtain ⟨rfl, rfl⟩ := List.cons.inj h
    rfl

/-- Of the nodes of a tree, those around a node are those it lies below. -/
theorem mem_enclosing_iff (hp : p ∈ s.preorder) (hq : q ∈ s.preorder) :
    p ∈ q.enclosing ↔ q ∈ p.below := by
  rw [enclosing, mem_ofPlaces_iff]
  refine ⟨fun h => ?_, ancestors_suffix_above⟩
  induction s using rec_nodes with
  | h s ih =>
    have hlong : q.above.length < q.ancestors.length := Nat.lt_succ_self _
    rcases mem_preorder_iff.1 hq with rfl | ⟨c, hc, hqc⟩
    · -- nothing in the tree lies around its root
      have h1 := (ancestors_suffix hp).length_le
      have h2 := h.length_le
      omega
    · rcases mem_preorder_iff.1 hp with rfl | ⟨d, hd, hpd⟩
      · exact mem_below_iff.2 ⟨c, hc, hqc⟩
      · have hpq : p.ancestors <:+ q.ancestors := h.trans (List.suffix_cons _ _)
        obtain rfl := eq_of_ancestors_suffix hc hd (ancestors_suffix hqc)
          ((ancestors_suffix hpd).trans hpq)
        exact ih c hc hpd hqc

theorem pairwise_not_below (s : Site) :
    s.preorder.Pairwise fun p q => p ∈ q.below → q.span.stop ≤ q.span.start := by
  induction s using rec_nodes with
  | h s ih =>
    refine List.pairwise_cons.2 ⟨?_, ?_⟩
    · intro q hq hs
      have h1 := size_lt_of_mem_below hq
      have h2 := size_lt_of_mem_below hs
      omega
    · rw [below_eq, List.pairwise_flatMap]
      refine ⟨ih, ?_⟩
      have hpair := List.pairwise_of_forall_mem_list (r := fun a b => a ∈ s.nodes ∧ b ∈ s.nodes)
        fun a ha b hb => ⟨ha, hb⟩
      refine (s.pairwise_nodes.and hpair).imp fun {a b} ⟨hab, ha, hb⟩ p hp q hq hpq => ?_
      obtain rfl := eq_of_mem_preorder ha hb hp (preorder_trans hq (List.mem_cons_of_mem q hpq))
      have := within_of_mem_preorder hq
      omega

section

variable {before behind : List Site} (hlist : s.preorder = before ++ q :: behind) (hp : p ∈ before)

include hlist hp

/-- What is listed in front of a node lies around it or in front of it. -/
theorem below_or_behind_of_listed : q ∈ p.below ∨ p.span.stop ≤ q.span.start := by
  have h := s.pairwise_preorder
  rw [hlist] at h
  exact (List.pairwise_append.1 h).2.2 p hp q List.mem_cons_self

theorem not_below_of_listed : p ∈ q.below → q.span.stop ≤ q.span.start := by
  have h := s.pairwise_not_below
  rw [hlist] at h
  exact (List.pairwise_append.1 h).2.2 p hp q List.mem_cons_self

end

/-- Of two nodes one lies below the other, or they are apart. -/
theorem below_or_apart (hp : p ∈ s.preorder) (hq : q ∈ s.preorder) (hne : p ≠ q) :
    q ∈ p.below ∨ p ∈ q.below ∨ p.span.stop ≤ q.span.start ∨ q.span.stop ≤ p.span.start := by
  rcases rel_or_rel_of_pairwise s.pairwise_preorder hp hq hne with (h | h) | (h | h)
  · exact .inl h
  · exact .inr (.inr (.inl h))
  · exact .inr (.inl h)
  · exact .inr (.inr (.inr h))

/-- A node that is not empty and lies around another node, or stands apart from it, does not lie in
it. -/
theorem not_mem_preorder (h : q ∈ p.below ∨ p.span.Apart q.span)
    (hwide : p.span.start < p.span.stop) : p ∉ q.preorder := by
  intro hp
  have hin := within_of_mem_preorder hp
  rcases h with hbelow | hbefore | hbehind
  · have := size_lt_of_mem_below hbelow
    have := size_le_of_mem_preorder hp
    omega
  · omega
  · omega

theorem mem_preorder_or_enclosing (hq : q ∈ s.preorder) (hp : p ∈ q.enclosing) :
    p ∈ s.preorder ∨ p ∈ s.enclosing := by
  induction s using rec_nodes with
  | h s ih =>
    rcases mem_preorder_iff.1 hq with rfl | ⟨c, hc, hqc⟩
    · exact .inr hp
    · rcases ih c hc hqc with h | h
      · exact .inl (mem_preorder_iff.2 (.inr ⟨c, hc, h⟩))
      · rw [enclosing, above_of_mem_nodes hc] at h
        rcases List.mem_cons.1 h with rfl | h
        · exact .inl List.mem_cons_self
        · exact .inr h

theorem map_toPlace_ofPlaces (ps : List Place) : (ofPlaces ps).map toPlace = ps := by
  induction ps with
  | nil => rfl
  | cons p ps ih => rw [ofPlaces, List.map_cons, ih]

theorem exists_outermost_enclosing {P : Site → Prop} (h : p ∈ q.enclosing) (hp : P p) :
    ∃ k ∈ q.enclosing, P k ∧ ∀ m ∈ k.enclosing, ¬ P m := by
  have outermost : ∀ ps : List Place, (∃ m ∈ ofPlaces ps, P m) →
      ∃ k ∈ ofPlaces ps, P k ∧ ∀ m ∈ k.enclosing, ¬ P m := by
    intro ps
    induction ps with
    | nil => exact fun ⟨m, hm, _⟩ => absurd hm List.not_mem_nil
    | cons place ps ih =>
      rintro ⟨m, hm, hPm⟩
      by_cases hmore : ∃ m ∈ ofPlaces ps, P m
      · obtain ⟨k, hk, houter⟩ := ih hmore
        exact ⟨k, List.mem_cons_of_mem _ hk, houter⟩
      · rcases List.mem_cons.1 hm with rfl | hm
        · exact ⟨_, List.mem_cons_self, hPm, fun m hm hPm => hmore ⟨m, hm, hPm⟩⟩
        · exact absurd ⟨m, hm, hPm⟩ hmore
  exact outermost q.above ⟨p, h, hp⟩

/-! ### Nodes in their text -/

/-- The node stands in the text where its span says, and none of its tokens is empty. -/
structure StandsIn (text : List Char) (s : Site) : Prop where
  part : PartAt text s.start (Tree.textAll s.children)
  solid : ∀ t ∈ s.tokens, t.text ≠ ""

variable {text : List Char}

theorem StandsIn.partAt_element (h : s.StandsIn text) {e : Element} (he : e ∈ s.elements) :
    PartAt text e.span.start e.text := by
  obtain ⟨n, hn, hpart⟩ := partAt_of_mem_elementsFrom he
  rw [hn]
  exact h.part.trans hpart

theorem StandsIn.node (h : s.StandsIn text) (hc : c ∈ s.nodes) : c.StandsIn text :=
  have he := mem_nodes_iff.1 hc
  ⟨h.partAt_element he, fun t ht => h.solid t (mem_tokensAll_of_mem_elementsFrom he ht)⟩

theorem StandsIn.preorder (h : s.StandsIn text) (hq : q ∈ s.preorder) : q.StandsIn text := by
  induction s using rec_nodes with
  | h s ih =>
    rcases mem_preorder_iff.1 hq with rfl | ⟨c, hc, hq⟩
    · exact h
    · exact ih c hc (h.node hc) hq

theorem StandsIn.slice? (h : s.StandsIn text) :
    slice? text s.span = some (Tree.textAll s.children) := by
  have := h.part.slice?
  rwa [← Tree.widthAll_eq] at this

theorem StandsIn.cut_start (h : s.StandsIn text) : Cut text s.span.start := h.part.cut_start

theorem StandsIn.cut_stop (h : s.StandsIn text) : Cut text s.span.stop := by
  rw [stop_eq]
  exact h.part.cut_stop

/-! ### Direct tokens -/

theorem mem_elements_of_mem_directTokens {t : Token} (h : t ∈ s.directTokens) :
    Element.token t ∈ s.elements := by
  obtain ⟨e, he, ht⟩ := List.mem_filterMap.1 (List.mem_filter.1 h).1
  cases e with
  | token u => exact Option.some.inj ht ▸ he
  | node => simp [Element.token?] at ht

theorem mem_directTokens_of_mem_idents {t : Token} (h : t ∈ s.idents) : t ∈ s.directTokens :=
  (List.mem_filter.1 h).1

theorem StandsIn.cut_token (h : s.StandsIn text) {t : Token} (ht : t ∈ s.directTokens) :
    Cut text t.span.start ∧ Cut text t.span.stop := by
  have hpart := h.partAt_element (mem_elements_of_mem_directTokens ht)
  refine ⟨hpart.cut_start, ?_⟩
  have hstop := hpart.cut_stop
  rwa [← Element.stop_eq] at hstop

theorem StandsIn.token_nonempty (h : s.StandsIn text) {t : Token} (ht : t ∈ s.directTokens) :
    t.span.start < t.span.stop :=
  Token.start_lt_stop (h.solid t (mem_tokensAll_of_mem_elementsFrom
    (mem_elements_of_mem_directTokens ht) (List.mem_singleton_self t)))

theorem StandsIn.slice?_token (h : s.StandsIn text) {t : Token} (ht : t ∈ s.directTokens) :
    SourceRename.slice? text t.span = some t.text.toList := by
  have hpart := (h.partAt_element (mem_elements_of_mem_directTokens ht)).slice?
  rwa [Element.text, byteLength_toList] at hpart

theorem within_of_mem_directTokens {t : Token} (h : t ∈ s.directTokens) :
    s.span.start ≤ t.span.start ∧ t.span.stop ≤ s.span.stop :=
  within_of_mem_elementsFrom (mem_elements_of_mem_directTokens h)

/-- A direct token shares nothing with what lies below the node. -/
theorem apart_of_mem_directTokens {t : Token} (ht : t ∈ s.directTokens) (hq : q ∈ s.below) :
    t.span.stop ≤ q.span.start ∨ q.span.stop ≤ t.span.start := by
  obtain ⟨c, hc, hq⟩ := mem_below_iff.1 hq
  have hin := within_of_mem_preorder hq
  have hapart : t.span.stop ≤ c.span.start ∨ c.span.stop ≤ t.span.start :=
    rel_or_rel_of_pairwise (pairwise_elementsFrom s.ancestors s.start s.children)
      (mem_elements_of_mem_directTokens ht) (mem_nodes_iff.1 hc) nofun
  omega

end Site

/-! ### Files -/

namespace SourceFile

variable {f : SourceFile} {m n p : Site}

theorem above_root (f : SourceFile) : f.root.above = [] := by
  rw [root, Site.root.eq_def]
  split
  · rfl
  · rfl

theorem mem_of_parent? (hm : m ∈ f.sites) (h : m.parent? = some p) :
    p ∈ f.sites ∧ m ∈ p.nodes := by
  rcases Site.mem_preorder_cases hm with rfl | ⟨q, hq, hmq⟩
  · rw [Site.parent?, f.above_root] at h
    simp at h
  · obtain rfl := Option.some.inj ((Site.parent?_of_mem_nodes hmq).symm.trans h)
    exact ⟨hq, hmq⟩

theorem mem_of_enclosing (hn : n ∈ f.sites) (hm : m ∈ n.enclosing) : m ∈ f.sites := by
  refine (Site.mem_preorder_or_enclosing hn hm).resolve_right fun h => ?_
  rw [Site.enclosing, f.above_root] at h
  exact absurd h List.not_mem_nil

theorem mem_of_nodes (hm : m ∈ f.sites) (h : n ∈ m.nodes) : n ∈ f.sites :=
  Site.preorder_trans hm (List.mem_cons_of_mem m (Site.mem_below_of_mem_nodes h))

theorem mem_of_attributes (hm : m ∈ f.sites) (h : n ∈ m.attributes) : n ∈ f.sites := by
  rw [Site.attributes] at h
  split at h
  · next args hargs =>
    exact mem_of_nodes (mem_of_nodes hm (Site.mem_nodes_of_child? hargs)) (List.mem_filter.1 h).1
  · exact absurd h List.not_mem_nil

theorem mem_of_annotations (hm : m ∈ f.sites) (h : n ∈ m.annotations) : n ∈ f.sites := by
  rw [Site.annotations] at h
  split at h
  · next list hlist =>
    exact mem_of_nodes (mem_of_nodes hm (Site.mem_nodes_of_child? hlist)) (List.mem_filter.1 h).1
  · exact absurd h List.not_mem_nil

end SourceFile

theorem SourceFile.Lossless.standsIn {f : SourceFile} (h : f.Lossless) {s : Site}
    (hs : s ∈ f.sites) : s.StandsIn f.text.toList := by
  obtain ⟨children, htree, htokens⟩ := h
  have hroot : f.root = ⟨⟨.sourceFile, children, 0⟩, []⟩ := by rw [SourceFile.root, htree]; rfl
  have htext : Tree.textAll children = f.text.toList := by
    rw [← Tree.flatMap_tokensAll 0, htokens, flatMap_tokenize]
  refine Site.StandsIn.preorder ?_ hs
  rw [hroot]
  refine ⟨htext ▸ PartAt.self _, fun t ht => (sideBySide_tokenize f.text).text_ne t ?_⟩
  rw [← htokens]
  exact ht

end SourceRename
