import SourceRename.Edit.Plan
import SourceRename.Proofs.Edit.Growth
import Mathlib.Data.List.FinRange
import Mathlib.Data.List.Sort

/-!
# The order of calls

What is listed after a row of calls depends on what was queued for each span, and on the order of
these texts, but not on what was queued elsewhere in between.  Two rows of which one has the calls
of the other at other places, those for one span in the same order, leave the same list
(`Rearrangement.ofCalls_eq`).

The reason is that a list of replacements is known by the text at each span: it ascends, so no
other list has the same entries (`eq_of_textAt?_eq`).  The text at a span comes from the calls for
this span alone, and a rearrangement leaves these as they are (`Rearrangement.filter_eq`).

The search for a replacement in the way of a span does not read the list to its end.  It finds what
a scan of the whole list finds all the same (`firstOverlap?_eq`), and so the first listed span that
shares a byte with the given one (`firstOverlap?_eq_some_iff`).
-/

namespace SourceRename

def Span.SharesByte (a b : Span) : Prop :=
  ∃ i, (a.start ≤ i ∧ i < a.stop) ∧ b.start ≤ i ∧ i < b.stop

theorem Span.overlaps_iff_sharesByte {a b : Span} : a.overlaps b = true ↔ a.SharesByte b := by
  rw [overlaps_iff]
  constructor
  · intro h
    exact ⟨max a.start b.start, by omega, by omega⟩
  · rintro ⟨i, ha, hb⟩
    omega

/-- A row of calls with the calls of another one at other places, those for one span in the same
order. -/
structure Rearrangement (calls calls' : List Edit) where
  /-- Where each call has gone. -/
  place : Fin calls.length ≃ Fin calls'.length
  call_at : ∀ i, calls'[place i] = calls[i]
  keeps_order : ∀ i j, i < j → calls[i].span = calls[j].span → place i < place j

namespace Edits

variable {es fs : Edits} {span s : Span}

/-! ### Lists with the same texts -/

/-- **A list is known by the text at each span.** -/
theorem eq_of_textAt?_eq (h : ∀ s, es.textAt? s = fs.textAt? s) : es = fs := by
  have hmem : ∀ e, e ∈ es.toList ↔ e ∈ fs.toList := by
    intro e
    rw [mem_toList_iff, mem_toList_iff, h]
  have hnodup : ∀ es : Edits, es.toList.Nodup := fun es => es.nodup_spans.of_map
  have hperm : es.toList.Perm fs.toList :=
    (List.perm_ext_iff_of_nodup (hnodup es) (hnodup fs)).2 hmem
  have hlist : es.toList = fs.toList := by
    refine hperm.eq_of_pairwise ?_ es.ascending fs.ascending
    intro a b _ _ hab hba
    rw [Span.precedes_asymm hab] at hba
    exact absurd hba Bool.false_ne_true
  cases es
  cases fs
  simp_all

/-! ### The first span in the way -/

/-- **The first listed span that shares a byte**: it shares one, and what is listed in front of it
does not. -/
theorem firstOverlap?_eq_some_iff : es.firstOverlap? span = some s ↔
    ∃ before e behind, es.toList = before ++ e :: behind ∧ e.span = s ∧ s.SharesByte span ∧
      ∀ f ∈ before, ¬ f.span.SharesByte span := by
  rw [firstOverlap?_eq, Option.map_eq_some_iff]
  constructor
  · rintro ⟨e, he, rfl⟩
    obtain ⟨hover, before, behind, hlist, hbefore⟩ := List.find?_eq_some_iff_append.1 he
    refine ⟨before, e, behind, hlist, rfl, Span.overlaps_iff_sharesByte.1 hover, ?_⟩
    intro f hf hshares
    have hnot := hbefore f hf
    rw [Span.overlaps_iff_sharesByte.2 hshares] at hnot
    exact absurd hnot Bool.false_ne_true
  · rintro ⟨before, e, behind, hlist, rfl, hshares, hbefore⟩
    refine ⟨e, List.find?_eq_some_iff_append.2 ⟨Span.overlaps_iff_sharesByte.2 hshares, before,
      behind, hlist, ?_⟩, rfl⟩
    intro f hf
    rw [Bool.not_eq_true', Bool.eq_false_iff, ne_eq, Span.overlaps_iff_sharesByte]
    exact hbefore f hf

theorem firstOverlap?_eq_none_iff :
    es.firstOverlap? span = none ↔ ∀ e ∈ es.toList, ¬ e.span.SharesByte span := by
  rw [firstOverlap?_eq, Option.map_eq_none_iff, List.find?_eq_none]
  constructor
  · intro h e he hshares
    exact h e he (Span.overlaps_iff_sharesByte.2 hshares)
  · intro h e he hover
    exact h e he (Span.overlaps_iff_sharesByte.1 hover)

end Edits

/-! ### Calls at other places -/

namespace Rearrangement

variable {calls calls' : List Edit}

/-- The places of the calls for a span, one behind the other. -/
def placesOf (calls : List Edit) (span : Span) : List (Fin calls.length) :=
  (List.finRange calls.length).filter fun i => calls[i].span == span

theorem mem_placesOf_iff {span : Span} {i : Fin calls.length} :
    i ∈ placesOf calls span ↔ calls[i].span = span := by
  rw [placesOf, List.mem_filter, beq_iff_eq]
  exact and_iff_right (List.mem_finRange i)

theorem ascending_placesOf (calls : List Edit) (span : Span) :
    (placesOf calls span).Pairwise (· < ·) :=
  (List.sortedLT_finRange calls.length).pairwise.filter _

theorem map_placesOf (calls : List Edit) (span : Span) :
    (placesOf calls span).map (fun i => calls[i]) = calls.filter (·.span == span) := by
  have hall := List.filter_map (p := (·.span == span)) (f := calls.get)
    (l := List.finRange calls.length)
  rw [List.map_get_finRange] at hall
  exact hall.symm

/-- The places of the calls for a span, taken along, are the places of the calls for this span. -/
theorem map_place_placesOf (r : Rearrangement calls calls') (span : Span) :
    (placesOf calls span).map r.place = placesOf calls' span := by
  have hplaced : ((placesOf calls span).map r.place).Pairwise (· < ·) := by
    rw [List.pairwise_map]
    refine (ascending_placesOf calls span).imp_of_mem ?_
    intro i j hi hj hij
    rw [mem_placesOf_iff] at hi hj
    exact r.keeps_order i j hij (hi.trans hj.symm)
  have hmem : ∀ j, j ∈ (placesOf calls span).map r.place ↔ j ∈ placesOf calls' span := by
    intro j
    obtain ⟨i, rfl⟩ := r.place.surjective j
    rw [List.mem_map_of_injective r.place.injective, mem_placesOf_iff, mem_placesOf_iff,
      r.call_at]
  -- both rows of places ascend, and so they are the same
  have hperm : ((placesOf calls span).map r.place).Perm (placesOf calls' span) :=
    (List.perm_ext_iff_of_nodup hplaced.nodup (ascending_placesOf calls' span).nodup).2 hmem
  refine hperm.eq_of_pairwise ?_ hplaced (ascending_placesOf calls' span)
  intro i j _ _ hij hji
  exact absurd hji (Fin.lt_asymm hij)

theorem filter_eq (r : Rearrangement calls calls') (span : Span) :
    calls'.filter (·.span == span) = calls.filter (·.span == span) := by
  rw [← map_placesOf calls', ← r.map_place_placesOf, List.map_map, ← map_placesOf calls]
  refine List.map_congr_left ?_
  intro i _
  exact r.call_at i

/-- **The order of calls for different spans does not matter.** -/
theorem ofCalls_eq (r : Rearrangement calls calls') :
    Edits.ofCalls calls' = Edits.ofCalls calls := by
  refine Edits.eq_of_textAt?_eq ?_
  intro span
  have hqueued : ∀ calls : List Edit,
      span ∈ calls.map (·.span) ↔ calls.filter (·.span == span) ≠ [] := by
    intro calls
    simp [List.filter_eq_nil_iff]
  rw [Edits.textAt?_ofCalls, Edits.textAt?_ofCalls, Edits.queuedText, Edits.queuedText,
    r.filter_eq]
  simp only [hqueued, r.filter_eq]

end Rearrangement

namespace Edits

/-- **What is listed is what was queued, whenever it was queued.**  Each span of a call is listed
once, in ascending order, with the texts queued for it one after the other.  Rearranging the calls
changes nothing, as long as those for one span keep their order.  And the search for a span in the
way finds the first one that is listed. -/
theorem ofCalls_determined (calls : List Edit) :
    (ofCalls calls).toList.Pairwise (fun a b => a.span.precedes b.span = true) ∧
    (∀ e, e ∈ (ofCalls calls).toList ↔
      e.span ∈ calls.map (·.span) ∧ e.text = queuedText calls e.span) ∧
    (∀ calls', Rearrangement calls calls' →
      ofCalls calls' = ofCalls calls ∧
        ∀ text, (ofCalls calls').applyTo? text = (ofCalls calls).applyTo? text) ∧
    ∀ span,
      (ofCalls calls).firstOverlap? span =
        ((ofCalls calls).toList.find? (·.span.overlaps span)).map (·.span) ∧
      (∀ s, (ofCalls calls).firstOverlap? span = some s ↔
        ∃ before e behind, (ofCalls calls).toList = before ++ e :: behind ∧ e.span = s ∧
          s.SharesByte span ∧ ∀ f ∈ before, ¬ f.span.SharesByte span) ∧
      ((ofCalls calls).firstOverlap? span = none ↔
        ∀ e ∈ (ofCalls calls).toList, ¬ e.span.SharesByte span) := by
  refine ⟨(ofCalls calls).ascending, fun e => mem_ofCalls_iff, ?_, ?_⟩
  · intro calls' r
    exact ⟨r.ofCalls_eq, fun text => by rw [r.ofCalls_eq]⟩
  · intro span
    refine ⟨firstOverlap?_eq _ span, ?_, firstOverlap?_eq_none_iff⟩
    exact fun s => firstOverlap?_eq_some_iff

/-- Two calls for a span, and one for another span between them or in front of them. -/
theorem ofCalls_determined_exchanged :
    ofCalls [⟨.empty 4, "x"⟩, ⟨.ofWidth 0 1, "a"⟩, ⟨.ofWidth 0 1, "b"⟩] =
        ofCalls [⟨.ofWidth 0 1, "a"⟩, ⟨.empty 4, "x"⟩, ⟨.ofWidth 0 1, "b"⟩] ∧
      (ofCalls [⟨.ofWidth 0 1, "a"⟩, ⟨.empty 4, "x"⟩, ⟨.ofWidth 0 1, "b"⟩]).toList =
        [⟨.ofWidth 0 1, "ab"⟩, ⟨.empty 4, "x"⟩] := by
  have r : Rearrangement [⟨.ofWidth 0 1, "a"⟩, ⟨.empty 4, "x"⟩, ⟨.ofWidth 0 1, "b"⟩]
      [⟨.empty 4, "x"⟩, ⟨.ofWidth 0 1, "a"⟩, ⟨.ofWidth 0 1, "b"⟩] :=
    ⟨Equiv.swap 0 1, by decide, by decide⟩
  exact ⟨((ofCalls_determined _).2.2.1 _ r).1, by decide⟩

end Edits

end SourceRename
