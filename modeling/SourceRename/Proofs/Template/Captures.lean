import SourceRename.Proofs.Syntax.Geometry
import SourceRename.Proofs.Template.Parts

/-!
# What a match captures

The parts that a template's parameters stand for lie inside the matched node and share nothing
(`laid_of_collect`).  `Template.collect` visits them in the order of the template's tree, so they
are not listed from left to right, and what is proved of a row of spans does not depend on its
order: `Laid outer spans` says that the spans lie inside the outer one and are apart two by two.

A row stays laid out when one of its spans is replaced by spans laid out inside that one
(`Laid.expand`).  With this the parts that `Template.align` pairs are taken one after the other,
each replaced by what is captured in it.

Where no arguments are captured for a variadic parameter, only a place is, and it may stand inside
another capture if the argument list has no parenthesis.  Such captures are left out first (`kept`);
where they stand is said by `omitted_of_collect`, and that they are apart as well if argument lists
have parentheses by `laid_of_opened`.
-/

namespace SourceRename

/-- The spans lie inside the outer one and share nothing. -/
structure Laid (outer : Span) (spans : List Span) : Prop where
  inside : ∀ s ∈ spans, outer.start ≤ s.start ∧ s.stop ≤ outer.stop
  apart : spans.Pairwise Span.Apart

namespace Laid

variable {outer inner : Span} {xs ys zs : List Span}

theorem single (h : outer.start ≤ inner.start ∧ inner.stop ≤ outer.stop) : Laid outer [inner] :=
  ⟨by simpa using h, by simp⟩

theorem append (hx : Laid outer xs) (hy : Laid outer ys)
    (h : ∀ x ∈ xs, ∀ y ∈ ys, x.Apart y) : Laid outer (xs ++ ys) := by
  refine ⟨?_, List.pairwise_append.2 ⟨hx.apart, hy.apart, h⟩⟩
  intro s hs
  rcases List.mem_append.1 hs with hs | hs
  · exact hx.inside s hs
  · exact hy.inside s hs

theorem widen (h : Laid inner xs) (hin : outer.start ≤ inner.start ∧ inner.stop ≤ outer.stop) :
    Laid outer xs := by
  refine ⟨?_, h.apart⟩
  intro s hs
  have := h.inside s hs
  omega

theorem apart_of_apart {a b : Span} (ha : Laid a xs) (hb : Laid b ys) (h : a.Apart b) :
    ∀ x ∈ xs, ∀ y ∈ ys, x.Apart y := by
  intro x hx y hy
  have h1 := ha.inside x hx
  have h2 := hb.inside y hy
  rcases h with h | h
  · exact .inl (by omega)
  · exact .inr (by omega)

/-- A span of the row may be replaced by spans inside it. -/
theorem expand (h : Laid outer (zs ++ inner :: ys)) (hx : Laid inner xs) :
    Laid outer (zs ++ xs ++ ys) := by
  obtain ⟨hz, hiy, hcross⟩ := List.pairwise_append.1 h.apart
  obtain ⟨hi, hy⟩ := List.pairwise_cons.1 hiy
  have hin := h.inside inner (by simp)
  have hself : ∀ s : Span, Laid s [s] := fun s => single ⟨Nat.le_refl _, Nat.le_refl _⟩
  have hleft : Laid outer (zs ++ xs) := by
    apply append ⟨fun s hs => h.inside s (by simp [hs]), hz⟩ (hx.widen hin)
    intro z hzm
    exact apart_of_apart (hself z) hx (hcross z hzm inner (by simp)) z (by simp)
  apply append hleft ⟨fun s hs => h.inside s (by simp [hs]), hy⟩
  intro s hs y hym
  rcases List.mem_append.1 hs with hs | hs
  · exact hcross s hs y (by simp [hym])
  · exact apart_of_apart hx (hself y) (hi y hym) s hs y (by simp)

end Laid

namespace Site

variable {s c d : Site} {cs : List Site}

theorem laid_of_sublist (h : cs.Sublist s.nodes) : Laid s.span (cs.map (·.span)) := by
  constructor
  · intro x hx
    obtain ⟨c, hc, rfl⟩ := List.mem_map.1 hx
    exact within_of_mem_nodes (h.subset hc)
  · exact List.pairwise_map.2 ((s.pairwise_nodes.sublist h).imp fun hab => .inl hab)

theorem operands_sublist (s : Site) :
    (s.firstExpression?.toList ++ s.secondExpression?.toList).Sublist s.nodes := by
  have htwo : s.firstExpression?.toList ++ s.secondExpression?.toList = s.expressions.take 2 := by
    rw [firstExpression?, secondExpression?]
    rcases s.expressions with _ | ⟨x, _ | ⟨y, ys⟩⟩ <;> rfl
  rw [htwo]
  exact (List.take_sublist _ _).trans List.filter_sublist

theorem callee_cases (h : s.child? .referenceExpr = some c) :
    c ∈ s.nodes ∧ c.kind ≠ .argList := by
  refine ⟨mem_nodes_of_child? h, ?_⟩
  rw [kind_of_child? h]
  decide

theorem outerInstance_cases (h : s.outerInstance? = some c) :
    c ∈ s.nodes ∧ c.kind ≠ .argList := by
  refine ⟨mem_nodes_of_outerInstance? h, ?_⟩
  intro hkind
  unfold outerInstance? at h
  split at h
  · have hexpression : c.kind.isExpression = true :=
      (List.mem_filter.1 (List.mem_of_find?_eq_some h)).2
    rw [hkind] at hexpression
    exact absurd hexpression (by decide)
  · simp at h

end Site

theorem map_snd_zip_sublist {α β : Type} (xs : List α) (ys : List β) :
    ((xs.zip ys).map Prod.snd).Sublist ys := by
  induction xs generalizing ys with
  | nil => simp
  | cons x xs ih =>
    cases ys with
    | nil => simp
    | cons y ys => exact (ih ys).cons_cons y

/-! ### Captures that can be cut out -/

def kept (captures : List Capture) : List Capture := captures.filter (·.extent ≠ .omitted)

theorem kept_of_forall {captures : List Capture} (h : ∀ c ∈ captures, c.extent ≠ .omitted) :
    kept captures = captures := List.filter_eq_self.2 fun c hc => decide_eq_true (h c hc)

theorem mem_kept_iff {captures : List Capture} {c : Capture} :
    c ∈ kept captures ↔ c ∈ captures ∧ c.extent ≠ .omitted := by
  rw [kept, List.mem_filter, decide_eq_true_eq]

theorem kept_append (cs ds : List Capture) : kept (cs ++ ds) = kept cs ++ kept ds :=
  List.filter_append ..

/-- The captured part reaches from the start of one node to the end of another one, and only a
variadic parameter stands for anything but one expression. -/
structure Capture.Sound (t : Template) (e : Site) (c : Capture) : Prop where
  ends : ∃ first ∈ e.preorder, ∃ last ∈ e.preorder,
    c.span.start = first.span.start ∧ c.span.stop = last.span.stop
  extent : c.extent = .single ∨ t.isVariadic c.parameter = true

namespace Capture.Sound

variable {t : Template} {text : List Char} {e q : Site} {c : Capture}

theorem of_mem_preorder (h : c.Sound t q) (hq : q ∈ e.preorder) : c.Sound t e := by
  obtain ⟨first, hfirst, last, hlast, hends⟩ := h.ends
  exact ⟨⟨first, Site.preorder_trans hq hfirst, last, Site.preorder_trans hq hlast, hends⟩, h.extent⟩

theorem cut (h : c.Sound t e) (he : e.StandsIn text) :
    Cut text c.span.start ∧ Cut text c.span.stop := by
  obtain ⟨first, hfirst, last, hlast, hstart, hstop⟩ := h.ends
  exact ⟨hstart ▸ (he.preorder hfirst).cut_start, hstop ▸ (he.preorder hlast).cut_stop⟩

end Capture.Sound

/-- Argument lists without arguments have a parenthesis. -/
def Site.Opened (e : Site) : Prop :=
  ∀ args ∈ e.preorder, args.kind = .argList → args.expressions = [] →
    (args.token? .lParen).isSome = true

theorem Site.Opened.of_mem_preorder {e q : Site} (h : e.Opened) (hq : q ∈ e.preorder) : q.Opened :=
  fun args hargs => h args (Site.preorder_trans hq hargs)

/-- The parts to match and what is captured already lie in the node and share nothing. -/
structure Alignment.Sound (t : Template) (e : Site) (a : Alignment) : Prop where
  parts : ∀ x ∈ a.pairs, x.2 ∈ e.below
  captures : ∀ c ∈ kept a.captures, c.Sound t e
  laid : Laid e.span (a.pairs.map (·.2.span) ++ (kept a.captures).map (·.span))
  /-- So do places where nothing is captured, if argument lists have parentheses. -/
  whole : e.Opened → Laid e.span (a.pairs.map (·.2.span) ++ a.captures.map (·.span))

namespace Template

variable {t : Template} {file : SourceFile} {bound : Bound} {p e : Site}

theorem sound_of_sublist {pairs : List (Site × Site)}
    (h : (pairs.map Prod.snd).Sublist e.nodes) : Alignment.Sound t e ⟨pairs, bound, []⟩ := by
  have hlaid : Laid e.span (pairs.map (·.2.span) ++ []) := by
    have := Site.laid_of_sublist h
    rwa [List.map_map, ← List.append_nil (List.map _ pairs)] at this
  exact ⟨fun x hx => Site.mem_below_of_mem_nodes (h.subset (List.mem_map_of_mem hx)),
    fun c hc => absurd hc List.not_mem_nil, hlaid, fun _ => hlaid⟩

theorem map_snd_optional {p? e? : Option Site} {pairs : List (Site × Site)}
    (h : Alignment.optional p? e? = some pairs) : pairs.map Prod.snd = e?.toList := by
  unfold Alignment.optional at h
  split at h
  · obtain rfl := Option.some.inj h
    rfl
  · obtain rfl := Option.some.inj h
    rfl
  · simp at h

theorem map_snd_required {p? e? : Option Site} {pairs : List (Site × Site)}
    (h : Alignment.required p? e? = some pairs) : pairs.map Prod.snd = e?.toList := by
  unfold Alignment.required at h
  split at h
  · obtain rfl := Option.some.inj h
    rfl
  · simp at h

theorem map_snd_rows {ps es : List Site} {pairs : List (Site × Site)}
    (h : Alignment.rows ps es = some pairs) : (pairs.map Prod.snd).Sublist es := by
  unfold Alignment.rows at h
  split at h
  · obtain rfl := Option.some.inj h
    exact map_snd_zip_sublist ps es
  · simp at h

theorem sublist_of_option {c? : Option Site} (h : ∀ c, c? = some c → c ∈ e.nodes) :
    c?.toList.Sublist e.nodes := by
  cases c? with
  | none => exact List.nil_sublist _
  | some c => exact List.singleton_sublist.2 (h c rfl)

theorem sound_of_ofOptional {p? e? : Option Site} {a : Alignment}
    (hmem : ∀ c, e? = some c → c ∈ e.nodes) (h : Alignment.ofOptional bound p? e? = some a) :
    a.Sound t e := by
  obtain ⟨pairs, hpairs, rfl⟩ := Option.map_eq_some_iff.1 h
  exact sound_of_sublist (map_snd_optional hpairs ▸ sublist_of_option hmem)

theorem sound_of_operation {a : Alignment} (h : alignOperation bound p e = some a) : a.Sound t e := by
  unfold alignOperation at h
  split at h
  · obtain ⟨left, hl, h⟩ := Option.bind_eq_some_iff.1 h
    obtain ⟨right, hr, h⟩ := Option.bind_eq_some_iff.1 h
    obtain rfl := Option.some.inj h
    refine sound_of_sublist ?_
    rw [List.map_append, map_snd_optional hl, map_snd_optional hr]
    exact e.operands_sublist
  · simp at h

theorem sound_of_reference {a : Alignment} (h : alignReference bound p e = some a) : a.Sound t e := by
  unfold alignReference at h
  split at h
  · split at h
    · obtain rfl := Option.some.inj h
      exact sound_of_sublist (List.nil_sublist _)
    · simp at h
  · split at h
    · exact sound_of_ofOptional (fun _ => Site.mem_nodes_of_qualifier?) h
    · simp at h

theorem sound_of_lambda {a : Alignment} (h : alignLambda bound p e = some a) : a.Sound t e := by
  unfold alignLambda at h
  split at h
  · exact sound_of_ofOptional (fun _ => Site.mem_nodes_of_lambdaBody?) h
  · simp at h

/-! ### Arguments -/

theorem hull_stop {s first : Site} {rest : List Site} (h : (first :: rest).Sublist s.nodes) :
    (hull first (rest.getLastD first)).stop = (rest.getLastD first).span.stop := by
  have hspan := first.span.start_le_stop
  have hlast := (rest.getLastD first).span.start_le_stop
  have hle : first.span.start ≤ (rest.getLastD first).span.stop := by
    rcases List.mem_cons.1 List.getLastD_mem_cons with heq | hmem
    · rw [heq]
      exact hspan
    · have := (List.pairwise_cons.1 (s.pairwise_nodes.sublist h)).1 _ hmem
      omega
  exact Nat.max_eq_right hle

/-- The place behind the arguments of a list is behind the last one, or behind the parenthesis, or
one byte behind the start of the list. -/
theorem tailStart_cases (args : Site) :
    (∃ last ∈ args.nodes, tailStart args args.expressions = last.span.stop) ∨
      (∃ paren ∈ args.directTokens, tailStart args args.expressions = paren.span.stop) ∨
      (args.expressions = [] ∧ args.token? .lParen = none ∧
        tailStart args args.expressions = args.span.start + 1) := by
  unfold tailStart
  split
  · next last hlast =>
    exact .inl ⟨last, Site.mem_nodes_of_expressions (List.mem_of_getLast? hlast), rfl⟩
  · next hnone =>
    split
    · next paren hparen => exact .inr (.inl ⟨paren, List.mem_of_find?_eq_some hparen, rfl⟩)
    · next hparen => exact .inr (.inr ⟨List.getLast?_eq_none_iff.1 hnone, hparen, rfl⟩)

theorem tailStart_inside (hopen : e.expressions = [] → (e.token? .lParen).isSome = true) :
    e.span.start ≤ tailStart e e.expressions ∧ tailStart e e.expressions ≤ e.span.stop := by
  rcases tailStart_cases e with ⟨last, hlast, h⟩ | ⟨paren, hparen, h⟩ | ⟨hnone, hno, -⟩
  · have hin := Site.within_of_mem_nodes hlast
    have := last.span.start_le_stop
    omega
  · have hin := Site.within_of_mem_directTokens hparen
    have := paren.span.start_le_stop
    omega
  · have := hopen hnone
    rw [hno] at this
    exact absurd this (by simp)

theorem stop_le_tailStart {q : Site} (hq : q ∈ e.expressions) :
    q.span.stop ≤ tailStart e e.expressions := by
  obtain ⟨init, last, hrow⟩ :=
    (List.eq_nil_or_concat e.expressions).resolve_left (List.ne_nil_of_mem hq)
  have hsorted : e.expressions.Pairwise fun a b => a.span.stop ≤ b.span.start :=
    e.pairwise_nodes.sublist List.filter_sublist
  rw [List.concat_eq_append] at hrow
  rw [hrow] at hq hsorted ⊢
  rw [tailStart, List.getLast?_concat]
  rcases List.mem_append.1 hq with hq | hq
  · have := (List.pairwise_append.1 hsorted).2.2 q hq last List.mem_cons_self
    exact Nat.le_trans this last.span.start_le_stop
  · obtain rfl := List.mem_singleton.1 hq
    exact Nat.le_refl _

theorem sound_of_tail {hole : Site} {parameter : Nat} {fixed tail : List Site}
    {heads pairs : List (Site × Site)} {captures : List Capture}
    (hkind : e.kind = .argList) (hvariadic : t.isVariadic parameter = true)
    (hrow : fixed ++ tail = e.expressions) (hheads : (heads.map Prod.snd).Sublist fixed)
    (h : t.alignTail file hole parameter e fixed tail = some (pairs, captures)) :
    Alignment.Sound t e ⟨heads ++ pairs, bound, captures⟩ := by
  have hsub : (fixed ++ tail).Sublist e.nodes := hrow ▸ List.filter_sublist
  have hfixed : (heads.map Prod.snd).Sublist e.nodes :=
    hheads.trans ((List.sublist_append_left _ _).trans hsub)
  unfold alignTail at h
  split at h
  · obtain ⟨rfl, rfl⟩ := Prod.mk.inj (Option.some.inj h)
    have hsound : Alignment.Sound t e ⟨heads, bound, []⟩ := sound_of_sublist hfixed
    rw [List.append_nil]
    refine ⟨hsound.parts, fun c hc => absurd hc List.not_mem_nil, hsound.laid, fun hopen => ?_⟩
    -- the fixed arguments are all there are, and the place is behind them
    obtain rfl : fixed = e.expressions := (List.append_nil fixed).symm.trans hrow
    have hlaid := hsound.whole hopen
    rw [List.map_nil, List.append_nil] at hlaid
    refine hlaid.append (.single (tailStart_inside (hopen e List.mem_cons_self hkind))) ?_
    intro x hx y hy
    obtain ⟨z, hz, rfl⟩ := List.mem_map.1 hx
    obtain rfl := List.mem_singleton.1 hy
    exact .inl (stop_le_tailStart (hheads.subset (List.mem_map_of_mem hz)))
  · next first rest =>
    have hfirst : first ∈ e.nodes := hsub.subset (by simp)
    split at h
    · obtain ⟨rfl, rfl⟩ := Prod.mk.inj (Option.some.inj h)
      refine sound_of_sublist ?_
      rw [List.map_append]
      exact (hheads.append (List.singleton_sublist.2 (by simp))).trans hsub
    · split at h
      · obtain ⟨rfl, rfl⟩ := Prod.mk.inj (Option.some.inj h)
        rw [List.append_nil]
        have hrun : (first :: rest).Sublist e.nodes := (List.sublist_append_right _ _).trans hsub
        have hlast : rest.getLastD first ∈ e.nodes :=
          hrun.subset List.getLastD_mem_cons
        have hstop := hull_stop hrun
        have hlaid : Laid e.span (heads.map (·.2.span) ++ [hull first (rest.getLastD first)]) := by
          have hlaid := Site.laid_of_sublist hfixed
          rw [List.map_map] at hlaid
          refine Laid.append hlaid (Laid.single ⟨?_, ?_⟩) ?_
          · exact (Site.within_of_mem_nodes hfirst).1
          · exact Nat.le_trans (Nat.le_of_eq hstop) (Site.within_of_mem_nodes hlast).2
          · intro x hx y hy
            -- the fixed arguments end before the row begins
            obtain ⟨z, hz, rfl⟩ := List.mem_map.1 hx
            obtain rfl := List.mem_singleton.1 hy
            refine .inl ?_
            exact (List.pairwise_append.1 (e.pairwise_nodes.sublist hsub)).2.2 _
              (hheads.subset (List.mem_map_of_mem hz)) first (by simp)
        refine ⟨fun x hx => Site.mem_below_of_mem_nodes (hfixed.subset (List.mem_map_of_mem hx)),
          ?_, hlaid, fun _ => hlaid⟩
        intro c hc
        obtain rfl := List.mem_singleton.1 hc
        have hnode : ∀ {q}, q ∈ e.nodes → q ∈ e.preorder :=
          fun hq => List.mem_cons_of_mem e (Site.mem_below_of_mem_nodes hq)
        exact ⟨⟨first, hnode hfirst, _, hnode hlast, rfl, hstop⟩, .inr hvariadic⟩
      · simp at h

theorem sound_of_lists {pairs : List (Site × Site)} {captures : List Capture}
    (hkind : e.kind = .argList) (h : t.alignLists file p e = some (pairs, captures)) :
    Alignment.Sound t e ⟨pairs, bound, captures⟩ := by
  unfold alignLists at h
  split at h
  · obtain ⟨qs, hq, h⟩ := Option.map_eq_some_iff.1 h
    obtain ⟨rfl, rfl⟩ := Prod.mk.inj h
    exact sound_of_sublist ((map_snd_rows hq).trans List.filter_sublist)
  · next hole parameter hv =>
    simp only at h
    split at h
    · simp at h
    · obtain ⟨⟨qs, ds⟩, hq, h⟩ := Option.map_eq_some_iff.1 h
      obtain ⟨rfl, rfl⟩ := Prod.mk.inj h
      exact sound_of_tail hkind (variadicHole?_eq_some hv).2.2 (List.take_append_drop _ _)
        (map_snd_zip_sublist _ _) hq

/-! ### Calls -/

/-- The part in front of the arguments, and the arguments. -/
theorem sound_of_call {heads : Option (List (Site × Site))} (head? : Option Site) {a : Alignment}
    (hhead : ∀ c, head? = some c → c ∈ e.nodes ∧ c.kind ≠ .argList)
    (hheads : ∀ hs, heads = some hs → hs.map Prod.snd = head?.toList)
    (h : t.alignCall file bound p e heads = some a) : a.Sound t e := by
  unfold alignCall at h
  split at h
  case h_2 => simp at h
  next hs args captures harguments =>
  obtain rfl := Option.some.inj h
  have hfirst : (hs.map Prod.snd).Sublist e.nodes :=
    hheads hs rfl ▸ sublist_of_option fun c hc => (hhead c hc).1
  have hsound : Alignment.Sound t e ⟨hs, bound, []⟩ := sound_of_sublist hfirst
  unfold alignArguments at harguments
  split at harguments
  · obtain ⟨rfl, rfl⟩ := Prod.mk.inj (Option.some.inj harguments)
    rwa [List.append_nil]
  · next p' e' hp he' =>
    have hmem := Site.mem_nodes_of_child? he'
    have hin : Alignment.Sound t e' ⟨args, bound, captures⟩ :=
      sound_of_lists (Site.kind_of_child? he') harguments
    have hbelow := Site.mem_below_of_mem_nodes hmem
    have hjoin : ∀ {spans : List Span}, Laid e'.span (args.map (·.2.span) ++ spans) →
        Laid e.span ((hs ++ args).map (·.2.span) ++ spans) := by
      intro spans hlaid
      rw [List.map_append, List.append_assoc]
      have hleft : Laid e.span (hs.map (·.2.span)) := by
        have := hsound.laid
        rwa [show kept [] = [] from rfl, List.map_nil, List.append_nil] at this
      apply hleft.append (hlaid.widen (Site.within_of_mem_nodes hmem))
      intro x hx
      obtain ⟨y, hy, rfl⟩ := List.mem_map.1 hx
      -- the part in front of the arguments is another child than the argument list
      have hyhead : y.2 ∈ head?.toList := hheads hs rfl ▸ List.mem_map_of_mem hy
      obtain ⟨hymem, hykind⟩ := hhead y.2 (Option.mem_toList.1 hyhead)
      have hne : y.2 ≠ e' := by
        rintro rfl
        exact hykind (Site.kind_of_child? he')
      have hself : Laid y.2.span [y.2.span] := .single ⟨Nat.le_refl _, Nat.le_refl _⟩
      exact Laid.apart_of_apart hself hlaid (Site.apart_of_mem_nodes hymem hmem hne) _ (by simp)
    refine ⟨?_, fun c hc => (hin.captures c hc).of_mem_preorder (List.mem_cons_of_mem e hbelow),
      hjoin hin.laid, fun hopen =>
        hjoin (hin.whole (hopen.of_mem_preorder (List.mem_cons_of_mem e hbelow)))⟩
    intro x hx
    rcases List.mem_append.1 hx with hx | hx
    · exact hsound.parts x hx
    · exact Site.below_trans hbelow (hin.parts x hx)
  · simp at harguments

/-! ### Nodes -/

theorem sound_of_align {a : Alignment} (h : t.align file bound p e = some a) : a.Sound t e := by
  unfold align at h
  split at h
  case isFalse => simp at h
  split at h
  · exact sound_of_operation h
  · exact sound_of_operation h
  · obtain ⟨pairs, hpairs, rfl⟩ := Option.map_eq_some_iff.1 h
    refine sound_of_sublist (map_snd_required hpairs ▸ sublist_of_option ?_)
    intro c
    exact Site.mem_nodes_of_child?
  · obtain ⟨pairs, hpairs, rfl⟩ := Option.map_eq_some_iff.1 h
    exact sound_of_sublist ((map_snd_rows hpairs).trans List.filter_sublist)
  · exact sound_of_ofOptional (fun _ => Site.mem_nodes_of_firstExpression?) h
  · exact sound_of_ofOptional (fun _ => Site.mem_nodes_of_firstExpression?) h
  · exact sound_of_ofOptional (fun _ => Site.mem_nodes_of_firstExpression?) h
  · exact sound_of_ofOptional (fun _ => Site.mem_nodes_of_lastExpression?) h
  · exact sound_of_reference h
  · exact sound_of_lambda h
  · exact sound_of_call (e.child? .referenceExpr) (fun _ => Site.callee_cases)
      (fun hs => map_snd_required) h
  · split at h
    · exact sound_of_call e.outerInstance? (fun _ => Site.outerInstance_cases)
        (fun hs => map_snd_optional) h
    · simp at h
  · split at h
    · obtain rfl := Option.some.inj h
      exact sound_of_sublist (List.nil_sublist _)
    · simp at h
  · simp at h

/-! ### Matches -/

theorem mapM_cons_eq_some {α β : Type} {f : α → Option β} {x : α} {xs : List α} {ys : List β}
    (h : (x :: xs).mapM f = some ys) :
    ∃ z zs, f x = some z ∧ xs.mapM f = some zs ∧ ys = z :: zs := by
  rw [List.mapM_cons] at h
  obtain ⟨z, hz, h⟩ := Option.bind_eq_some_iff.1 h
  obtain ⟨zs, hzs, h⟩ := Option.bind_eq_some_iff.1 h
  exact ⟨z, zs, hz, hzs, (Option.some.inj h).symm⟩

theorem exists_of_mapM_eq_some {α β : Type} {f : α → Option β} {xs : List α} {ys : List β} {x : α}
    (h : xs.mapM f = some ys) (hx : x ∈ xs) : ∃ y ∈ ys, f x = some y := by
  induction xs generalizing ys with
  | nil => exact absurd hx List.not_mem_nil
  | cons z zs ih =>
    obtain ⟨w, ws, hw, hws, rfl⟩ := mapM_cons_eq_some h
    rcases List.mem_cons.1 hx with rfl | hx
    · exact ⟨w, List.mem_cons_self, hw⟩
    · obtain ⟨y, hy, hf⟩ := ih hws hx
      exact ⟨y, List.mem_cons_of_mem w hy, hf⟩

theorem capture?_eq_some {parameter : Nat} {c : Capture}
    (h : t.capture? file bound parameter e = some c) :
    c.parameter = parameter ∧ c.span = e.span ∧ c.extent = .single ∧ e.kind.isExpression = true ∧
      t.fits file parameter e = true ∧ readsBound bound e = false := by
  unfold capture? at h
  split at h
  · next hok =>
    obtain rfl := Option.some.inj h
    rw [Bool.and_eq_true, Bool.and_eq_true, Bool.not_eq_true'] at hok
    exact ⟨rfl, rfl, rfl, hok.1.1, hok.1.2, hok.2⟩
  · simp at h

theorem hole?_of_kind_ne (h : p.kind ≠ .referenceExpr) : t.hole? p = none :=
  if_neg fun hname => h hname.1

theorem collect_eq_some_iff {captures : List Capture} (hhole : t.hole? p = none) :
    t.collect file bound p e = some captures ↔ ∃ a rows, t.align file bound p e = some a ∧
      (a.pairs.mapM fun x => t.collect file a.bound x.1 x.2) = some rows ∧
        rows.flatten ++ a.captures = captures := by
  cases halign : t.align file bound p e with
  | none =>
    rw [collect_of_not_align hhole halign]
    exact ⟨nofun, nofun⟩
  | some a =>
    rw [collect_of_align hhole halign, Option.map_eq_some_iff]
    constructor
    · rintro ⟨rows, hrows, h⟩
      exact ⟨a, rows, rfl, hrows, h⟩
    · rintro ⟨b, rows, hb, hrows, h⟩
      obtain rfl := Option.some.inj hb
      exact ⟨rows, hrows, h⟩

/-- Induction along a match: an expression is captured for a parameter, or parts are laid over each
other and arguments behind them may be captured on the spot. -/
@[elab_as_elim]
theorem collect_induction
    {motive : ∀ (bound : Bound) (p e : Site) (captures : List Capture),
      t.collect file bound p e = some captures → Prop}
    (expression : ∀ {bound p e c} (h : t.collect file bound p e = some [c]),
      t.hole? p = some c.parameter → t.capture? file bound c.parameter e = some c →
        motive bound p e [c] h)
    (parts : ∀ {bound p e a rows} (h : t.collect file bound p e = some (rows.flatten ++ a.captures)),
      t.hole? p = none → t.align file bound p e = some a →
        (a.pairs.mapM fun x => t.collect file a.bound x.1 x.2) = some rows →
          (∀ x ∈ a.pairs, ∀ cs (hx : t.collect file a.bound x.1 x.2 = some cs),
            motive a.bound x.1 x.2 cs hx) → motive bound p e (rows.flatten ++ a.captures) h)
    {captures : List Capture} (h : t.collect file bound p e = some captures) :
    motive bound p e captures h := by
  induction bound, p, e using trace.induct t file generalizing captures with
  | case1 bound p e parameter hhole c hc =>
    have hcollect := h
    rw [collect_of_hole hhole, hc, Option.map_some] at hcollect
    obtain rfl := Option.some.inj hcollect
    obtain rfl := (capture?_eq_some hc).1
    exact expression h hhole hc
  | case2 bound p e parameter hhole hnone =>
    rw [collect_of_hole hhole, hnone] at h
    simp at h
  | case3 bound p e hhole b complete hattempt ih =>
    obtain ⟨a, rows, halign, hrows, rfl⟩ := (collect_eq_some_iff hhole).1 h
    obtain rfl : a = b := (Prod.mk.inj ((attempt_of_align halign).symm.trans hattempt)).1
    exact parts h hhole halign hrows fun x hx cs hcs => ih ⟨x, hx⟩ hcs

/-- Each part in turn gives way to what is captured in it, or to some of it. -/
theorem laid_flatten (p : Capture → Bool) {f : Site × Site → Option (List Capture)}
    {pairs : List (Site × Site)} {parts : List (List Capture)} {outer : Span} {ys : List Span}
    (zs : List Span) (hparts : pairs.mapM f = some parts)
    (hf : ∀ x ∈ pairs, ∀ cs ∈ parts, f x = some cs → Laid x.2.span ((cs.filter p).map (·.span)))
    (h : Laid outer (zs ++ (pairs.map (·.2.span) ++ ys))) :
    Laid outer (zs ++ ((parts.flatten.filter p).map (·.span) ++ ys)) := by
  induction pairs generalizing parts zs with
  | nil =>
    obtain rfl := Option.some.inj hparts
    exact h
  | cons x xs ih =>
    obtain ⟨cs, rest, hcs, hrest, rfl⟩ := mapM_cons_eq_some hparts
    have hlaid := hf x (by simp) cs (by simp) hcs
    have := ih _ hrest (fun y hy ds hds => hf y (by simp [hy]) ds (by simp [hds])) (h.expand hlaid)
    simpa using this

theorem mem_flatten_cases {f : Site × Site → Option (List Capture)} {pairs : List (Site × Site)}
    {parts : List (List Capture)} (hparts : pairs.mapM f = some parts) {c : Capture}
    (hc : c ∈ parts.flatten) : ∃ x ∈ pairs, ∃ cs ∈ parts, f x = some cs ∧ c ∈ cs := by
  induction pairs generalizing parts with
  | nil =>
    obtain rfl := Option.some.inj hparts
    simp at hc
  | cons x xs ih =>
    obtain ⟨cs, rest, hcs, hrest, rfl⟩ := mapM_cons_eq_some hparts
    rw [List.flatten_cons, List.mem_append] at hc
    rcases hc with hc | hc
    · exact ⟨x, by simp, cs, by simp, hcs, hc⟩
    · obtain ⟨y, hy, ds, hds, hfy, hcd⟩ := ih hrest hc
      exact ⟨y, by simp [hy], ds, by simp [hds], hfy, hcd⟩

/-- **What a match captures lies in the node, apart.** -/
theorem laid_of_collect {captures : List Capture} (h : t.collect file bound p e = some captures) :
    Laid e.span ((kept captures).map (·.span)) ∧ ∀ c ∈ kept captures, c.Sound t e := by
  induction h using collect_induction with
  | @expression _ _ e c _ _ hcapture =>
    obtain ⟨-, hspan, hsingle, -⟩ := capture?_eq_some hcapture
    rw [kept_of_forall (by simp [hsingle]), List.map_singleton, hspan]
    refine ⟨Laid.single ⟨Nat.le_refl _, Nat.le_refl _⟩, ?_⟩
    intro d hd
    obtain rfl := List.mem_singleton.1 hd
    exact ⟨⟨e, List.mem_cons_self, e, List.mem_cons_self, by rw [hspan], by rw [hspan]⟩, .inl hsingle⟩
  | @parts _ _ e a rows _ _ halign hrows ih =>
    have hsound : a.Sound t e := sound_of_align halign
    rw [kept_append]
    constructor
    · have := laid_flatten (·.extent ≠ .omitted) [] hrows (fun x hx cs _ hcs => (ih x hx cs hcs).1)
        hsound.laid
      rwa [List.map_append]
    · intro c hc
      rcases List.mem_append.1 hc with hc | hc
      · obtain ⟨hc, hkept⟩ := mem_kept_iff.1 hc
        obtain ⟨x, hx, cs, -, hcs, hc⟩ := mem_flatten_cases hrows hc
        exact ((ih x hx cs hcs).2 c (mem_kept_iff.2 ⟨hc, hkept⟩)).of_mem_preorder
          (List.mem_cons_of_mem e (hsound.parts x hx))
      · exact hsound.captures c hc

/-- So do the places where nothing is captured, if argument lists have parentheses. -/
theorem laid_of_opened {captures : List Capture} (h : t.collect file bound p e = some captures) :
    e.Opened → Laid e.span (captures.map (·.span)) := by
  induction h using collect_induction with
  | expression _ _ hcapture =>
    intro _
    rw [List.map_singleton, (capture?_eq_some hcapture).2.1]
    exact .single ⟨Nat.le_refl _, Nat.le_refl _⟩
  | @parts _ _ e a rows _ _ halign hrows ih =>
    intro hopen
    have hsound : a.Sound t e := sound_of_align halign
    have hparts : ∀ x ∈ a.pairs, ∀ cs ∈ rows, t.collect file a.bound x.1 x.2 = some cs →
        Laid x.2.span ((cs.filter fun _ => true).map (·.span)) := by
      intro x hx cs _ hcs
      rw [List.filter_true]
      exact ih x hx cs hcs (hopen.of_mem_preorder (List.mem_cons_of_mem e (hsound.parts x hx)))
    have := laid_flatten (fun _ => true) [] hrows hparts (hsound.whole hopen)
    rwa [List.filter_true, List.nil_append, ← List.map_append] at this

/-! ### Places of omitted arguments -/

/-- Only behind the arguments of a call are arguments omitted. -/
theorem omitted_of_align {a : Alignment} {c : Capture} (h : t.align file bound p e = some a)
    (hc : c ∈ a.captures) (homitted : c.extent = .omitted) :
    ∃ args ∈ e.nodes, args.kind = .argList ∧
      c.span = .empty (tailStart args args.expressions) := by
  rcases (covers_of_align h).2.parts with ⟨hnone, -⟩ | ⟨hole, d, hcaptures, -, hgathers⟩
  · rw [hnone] at hc
    exact absurd hc List.not_mem_nil
  · obtain rfl : c = d := List.mem_singleton.1 (hcaptures ▸ hc)
    obtain ⟨ps, es, -, he, -, pairs, htail⟩ := hgathers
    refine ⟨es, Site.mem_nodes_of_child? he, Site.kind_of_child? he, ?_⟩
    rcases alignTail_cases htail with ⟨-, -, -, hnone⟩ | ⟨-, d, hone, -, hextent⟩
    · simp at hnone
    · obtain rfl := (List.cons.inj hone).1
      rcases hextent with ⟨hnil, -, hspan⟩ | ⟨-, -, -, hrun, -⟩
      · -- the fixed arguments are all there are
        rwa [List.take_of_length_le (List.drop_eq_nil_iff.1 hnil)] at hspan
      · rw [hrun] at homitted
        exact absurd homitted (by simp)

/-- **Arguments are omitted at the end of an argument list** below the node. -/
theorem omitted_of_collect {captures : List Capture} {c : Capture}
    (h : t.collect file bound p e = some captures) (hc : c ∈ captures)
    (homitted : c.extent = .omitted) : ∃ args ∈ e.below, args.kind = .argList ∧
      c.span = .empty (tailStart args args.expressions) := by
  induction h using collect_induction with
  | expression _ _ hcapture =>
    rw [List.mem_singleton.1 hc, (capture?_eq_some hcapture).2.2.1] at homitted
    exact absurd homitted (by simp)
  | parts _ _ halign hrows ih =>
    rcases List.mem_append.1 hc with hc | hc
    · obtain ⟨x, hx, cs, -, hcs, hc⟩ := mem_flatten_cases hrows hc
      obtain ⟨args, hargs, hplace⟩ := ih x hx cs hcs hc
      exact ⟨args, Site.below_trans ((sound_of_align halign).parts x hx) hargs, hplace⟩
    · obtain ⟨args, hargs, hplace⟩ := omitted_of_align halign hc homitted
      exact ⟨args, Site.mem_below_of_mem_nodes hargs, hplace⟩

end Template

end SourceRename
