import SourceRename.Proofs.Template.Captures
import SourceRename.Proofs.Template.Found

/-!
# Where looking for a match fails

Looking for a match compares texts, and fails if one of them is cut inside a character.  All that is
captured, up to the part that differs, begins and ends where nodes do, but for what is captured
where arguments are omitted.  That is an empty place behind the other arguments of a list, or behind
its parenthesis (`captured_of_trace`).  Only in a list that has neither it is one byte behind the
start of the list (`Site.IsBare`), which may be inside a character:

    f(é)-a    under    f(xs)-xs    if the list in  f(é)  is  é  alone

So there is no other way to fail (`bare_of_find_eq_error`), and none at all without a variadic
parameter (`exists_find_of_fixed`). -/

namespace SourceRename

/-- An argument list with neither arguments nor a parenthesis. -/
def Site.IsBare (args : Site) : Prop :=
  args.kind = .argList ∧ args.expressions = [] ∧ args.token? .lParen = none

theorem Trace.mem_foldr_cases {rs : List Trace} {last : Trace} {c : Capture}
    (h : c ∈ (rs.foldr followedBy last).captures) :
    (∃ r ∈ rs, c ∈ r.captures) ∨ c ∈ last.captures := by
  induction rs with
  | nil => exact .inr h
  | cons r rs ih =>
    rw [List.foldr_cons, followedBy] at h
    split at h
    · rcases List.mem_append.1 h with h | h
      · exact .inl ⟨r, List.mem_cons_self, h⟩
      · rcases ih h with ⟨q, hq, h⟩ | h
        · exact .inl ⟨q, List.mem_cons_of_mem r hq, h⟩
        · exact .inr h
    · exact .inl ⟨r, List.mem_cons_self, h⟩

theorem Site.IsPartOf.mem_below {q s : Site} (h : q.IsPartOf s) : q ∈ s.below := by
  rcases h with h | ⟨c, hc, hq⟩
  · exact mem_below_of_mem_nodes h
  · exact below_trans (mem_below_of_mem_nodes hc) (mem_below_of_mem_nodes hq)

namespace Template

variable {t : Template} {file : SourceFile} {bound : Bound} {p e site : Site} {c : Capture}

/-! ### What is captured on the way -/

/-- What is captured reaches from the start of a node to the end of a node, or is a place behind the
arguments of a list. -/
def Captured (t : Template) (e : Site) (c : Capture) : Prop :=
  (c.Sound t e ∧ c.extent ≠ .omitted) ∨ (c.extent = .omitted ∧ t.isVariadic c.parameter = true ∧
    ∃ args ∈ e.below, args.kind = .argList ∧ c.span = .empty (tailStart args args.expressions))

theorem Captured.of_mem_below {q : Site} (h : t.Captured q c) (hq : q ∈ e.below) :
    t.Captured e c := by
  rcases h with ⟨hsound, hkept⟩ | ⟨homitted, hvariadic, args, hargs, hplace⟩
  · exact .inl ⟨hsound.of_mem_preorder (List.mem_cons_of_mem e hq), hkept⟩
  · exact .inr ⟨homitted, hvariadic, args, Site.below_trans hq hargs, hplace⟩

theorem captured_of_align {a : Alignment} (h : t.align file bound p e = some a)
    (hc : c ∈ a.captures) : t.Captured e c := by
  by_cases homitted : c.extent = .omitted
  · obtain ⟨args, hargs, hplace⟩ := omitted_of_align h hc homitted
    have hvariadic : t.isVariadic c.parameter = true := by
      rcases (covers_of_align h).2.parts with ⟨hnone, -⟩ | ⟨hole, d, hcaptures, -, hgathers⟩
      · rw [hnone] at hc
        exact absurd hc List.not_mem_nil
      · obtain rfl : c = d := List.mem_singleton.1 (hcaptures ▸ hc)
        exact isVariadic_of_gathers hgathers
    exact .inr ⟨homitted, hvariadic, args, Site.mem_below_of_mem_nodes hargs, hplace⟩
  · exact .inl ⟨(sound_of_align h).captures c (mem_kept_iff.2 ⟨hc, homitted⟩), homitted⟩

/-- **What is captured on the way**, whether the nodes match or not. -/
theorem captured_of_trace (h : c ∈ (t.trace file bound p e).captures) : t.Captured e c := by
  induction bound, p, e using trace.induct t file with
  | case1 bound p e parameter hhole d hd =>
    rw [trace_of_hole hhole, hd] at h
    obtain rfl : c = d := by simpa using h
    obtain ⟨-, hspan, hsingle, -⟩ := capture?_eq_some hd
    refine .inl ⟨⟨⟨e, List.mem_cons_self, e, List.mem_cons_self, ?_, ?_⟩, .inl hsingle⟩, ?_⟩
    · rw [hspan]
    · rw [hspan]
    · simp [hsingle]
  | case2 bound p e parameter hhole hnone =>
    rw [trace_of_hole hhole, hnone] at h
    exact absurd h List.not_mem_nil
  | case3 bound p e hhole a complete hattempt ih =>
    rw [trace_of_attempt hhole hattempt] at h
    unfold attempt at hattempt
    rcases Trace.mem_foldr_cases h with ⟨r, hr, hc⟩ | hc
    · obtain ⟨x, hx, rfl⟩ := List.mem_map.1 hr
      refine (ih ⟨x, hx⟩ hc).of_mem_below ?_
      split at hattempt
      · next halign =>
        obtain ⟨rfl, -⟩ := Prod.mk.inj hattempt
        exact (sound_of_align halign).parts x hx
      · obtain ⟨rfl, -⟩ := Prod.mk.inj hattempt
        exact (isPartOf_of_begun hx).2.mem_below
    · split at hattempt
      · next halign =>
        obtain ⟨rfl, -⟩ := Prod.mk.inj hattempt
        exact captured_of_align halign hc
      · obtain ⟨rfl, -⟩ := Prod.mk.inj hattempt
        exact absurd hc List.not_mem_nil

/-! ### Failures -/

/-- What is captured begins and ends where nodes and tokens do, or it is nothing, in a bare list. -/
theorem Captured.ends_or_bare {P : Nat → Prop} (h : t.Captured site c)
    (hnodes : ∀ s ∈ site.preorder, P s.span.start ∧ P s.span.stop)
    (htokens : ∀ s ∈ site.preorder, ∀ u ∈ s.directTokens, P u.span.stop) :
    (P c.span.start ∧ P c.span.stop) ∨ c.extent = .omitted ∧ t.isVariadic c.parameter = true ∧
      ∃ args ∈ site.below, args.IsBare ∧ c.span = .empty (args.span.start + 1) := by
  rcases h with ⟨hsound, -⟩ | ⟨homitted, hvariadic, args, hargs, hkind, hspan⟩
  · obtain ⟨first, hfirst, last, hlast, hstart, hstop⟩ := hsound.ends
    exact .inl ⟨hstart ▸ (hnodes first hfirst).1, hstop ▸ (hnodes last hlast).2⟩
  · have hlist : args ∈ site.preorder := List.mem_cons_of_mem site hargs
    rcases tailStart_cases args with ⟨last, hlast, h⟩ | ⟨paren, hparen, h⟩ | ⟨hnone, hopen, h⟩
    · have hbelow := List.mem_cons_of_mem args (Site.mem_below_of_mem_nodes hlast)
      have hstop := (hnodes last (Site.preorder_trans hlist hbelow)).2
      rw [hspan, h]
      exact .inl ⟨hstop, hstop⟩
    · rw [hspan, h]
      exact .inl ⟨htokens args hlist paren hparen, htokens args hlist paren hparen⟩
    · exact .inr ⟨homitted, hvariadic, args, hargs, ⟨hkind, hnone, hopen⟩, h ▸ hspan⟩

/-- **Looking for a match fails in bare lists only**, one byte behind their start. -/
theorem bare_of_find_eq_error {f : Fault} (hsite : site.StandsIn file.text.toList)
    (h : t.find file site = .error f) :
    ∃ c ∈ (t.trace file [] t.root site).captures, c.extent = .omitted ∧
      t.isVariadic c.parameter = true ∧ ∃ args ∈ site.below, args.IsBare ∧
        c.span = .empty (args.span.start + 1) ∧
          ¬ Cut file.text.toList (args.span.start + 1) := by
  obtain ⟨-, c, hc, hnone⟩ := exists_of_find_eq_error h
  have hcut : ¬ (Cut file.text.toList c.span.start ∧ Cut file.text.toList c.span.stop) := by
    rintro ⟨hstart, hstop⟩
    obtain ⟨part, hpart⟩ := exists_slice?_of_cut hstart hstop
    rw [hnone] at hpart
    exact absurd hpart (by simp)
  have hplaced := (captured_of_trace hc).ends_or_bare (P := Cut file.text.toList)
    (fun s hs => ⟨(hsite.preorder hs).cut_start, (hsite.preorder hs).cut_stop⟩)
    (fun s hs u hu => ((hsite.preorder hs).cut_token hu).2)
  obtain ⟨homitted, hvariadic, args, hargs, hbare, hspan⟩ := hplaced.resolve_left hcut
  refine ⟨c, hc, homitted, hvariadic, args, hargs, hbare, hspan, fun hinside => hcut ?_⟩
  rw [hspan]
  exact ⟨hinside, hinside⟩

/-- Without a variadic parameter looking for a match does not fail. -/
theorem exists_find_of_fixed (hsite : site.StandsIn file.text.toList) (h : t.variadic = false) :
    ∃ m?, t.find file site = .ok m? := by
  cases hfind : t.find file site with
  | ok m? => exact ⟨m?, rfl⟩
  | error f =>
    obtain ⟨c, -, -, hvariadic, -⟩ := bare_of_find_eq_error hsite hfind
    rw [isVariadic, h] at hvariadic
    exact absurd hvariadic Bool.false_ne_true

theorem intact_of_fixed {templates : List Template} (hfile : file.Lossless)
    (h : ∀ t ∈ templates, t.variadic = false) : intact templates file = true :=
  intact_of_forall fun t ht _ hs => exists_find_of_fixed (hfile.standsIn hs) (h t ht)

end Template

end SourceRename
