import SourceRename.Proofs.Edit.Queue

/-!
# Lists of replacements only grow

`Grows P es fs` says that `fs` comes from `es` by queueing replacements one after the other, each of
them allowed by `P` at its time.  What is listed stays listed and texts are only added to, so a span
that is free later was free before:

    Grows P es fs  →  fs.isFree span  →  es.isFree span

A span that is listed at the end was listed at the beginning, or allowed at some time between
(`Grows.hasSpan_cases`).
-/

namespace SourceRename

namespace Span

theorem overlaps_of_within {a b s : Span} (h : a.start ≤ b.start ∧ b.stop ≤ a.stop)
    (hs : s.overlaps b = true) : s.overlaps a = true := by
  rw [overlaps_iff] at *
  omega

theorem overlaps_self_iff {s : Span} : s.overlaps s = true ↔ s.start < s.stop := by
  rw [overlaps_iff]
  omega

end Span

namespace Edits

variable {es fs : Edits} {span s u : Span} {text : String}

/-! ### What is free -/

/-- A scan for a span may stop where what is listed begins at its end or behind. -/
theorem find?_scanned {fs : List Edit}
    (hfs : fs.Pairwise fun a b => a.span.precedes b.span = true) :
    (fs.takeWhile (·.span.precedesKey span.stop 0)).find? (·.span.overlaps span) =
      fs.find? (·.span.overlaps span) := by
  induction fs with
  | nil => rfl
  | cons f fs ih =>
    obtain ⟨hbehind, hfs⟩ := List.pairwise_cons.1 hfs
    by_cases hscan : f.span.precedesKey span.stop 0 = true
    · rw [List.takeWhile_cons, if_pos hscan, List.find?_cons, List.find?_cons, ih hfs]
    · -- what is listed behind begins no earlier
      rw [List.takeWhile_cons, if_neg hscan, List.find?_nil, Eq.comm, List.find?_eq_none]
      rw [Span.precedesKey_zero_iff] at hscan
      intro g hg
      rw [Span.overlaps_iff]
      rcases List.mem_cons.1 hg with rfl | hg
      · omega
      · have := Span.precedes_iff.1 (hbehind g hg)
        omega

/-- **The scan finds what there is**: looking at all that is listed finds the same span. -/
theorem firstOverlap?_eq (es : Edits) (span : Span) :
    es.firstOverlap? span = (es.toList.find? (·.span.overlaps span)).map (·.span) := by
  rw [firstOverlap?]
  by_cases hempty : span.isEmpty = true
  · have hnone : es.toList.find? (·.span.overlaps span) = none := by
      rw [List.find?_eq_none]
      intro e _
      rw [Span.overlaps_iff]
      have : span.start = span.stop := beq_iff_eq.1 hempty
      omega
    rw [if_pos hempty, hnone]
    rfl
  · rw [if_neg hempty]
    exact congrArg (Option.map (·.span)) (find?_scanned es.ascending)

theorem isFree_iff : es.isFree span = true ↔
    ∀ u, es.hasSpan u = true → u.overlaps span = false := by
  rw [isFree, firstOverlap?_eq, Option.isNone_iff_eq_none, Option.map_eq_none_iff,
    List.find?_eq_none]
  constructor
  · intro h u hu
    obtain ⟨e, he, rfl⟩ := hasSpan_iff.1 hu
    simpa using h e he
  · intro h e he
    simpa using h e.span (hasSpan_iff.2 ⟨e, he, rfl⟩)

theorem isFree_empty (span : Span) : empty.isFree span = true := by
  rw [isFree, firstOverlap?_eq]
  rfl

theorem isFree_of_isEmpty (h : s.isEmpty = true) : es.isFree s = true := by
  rw [isFree, firstOverlap?, if_pos h]
  rfl

theorem isFree_of_within (h : es.isFree span = true)
    (hs : span.start ≤ s.start ∧ s.stop ≤ span.stop) : es.isFree s = true := by
  rw [isFree_iff] at *
  intro u hu
  have hfree := h u hu
  rw [Bool.eq_false_iff] at *
  exact fun hover => hfree (Span.overlaps_of_within hs hover)

theorem isFree_queue_iff : (es.queue s text).isFree u = true ↔
    s.overlaps u = false ∧ es.isFree u = true := by
  rw [isFree_iff, isFree_iff]
  constructor
  · intro h
    exact ⟨h s (hasSpan_queue.2 (.inl rfl)), fun v hv => h v (hasSpan_queue.2 (.inr hv))⟩
  · rintro ⟨hs, h⟩ v hv
    rcases hasSpan_queue.1 hv with rfl | hv
    · exact hs
    · exact h v hv

theorem eq_of_isFree_of_hasSpan (hfree : es.isFree s = true) (hs : es.hasSpan s = true) :
    s.start = s.stop := by
  have hself := isFree_iff.1 hfree s hs
  have := s.start_le_stop
  rw [Bool.eq_false_iff, ne_eq, Span.overlaps_self_iff] at hself
  omega

theorem hasSpan_eq_false (hfree : es.isFree s = true) (hwide : s.start < s.stop) :
    es.hasSpan s = false := by
  rw [Bool.eq_false_iff]
  intro hlisted
  have := eq_of_isFree_of_hasSpan hfree hlisted
  omega

/-! ### How many are listed -/

theorem mem_spans_iff : s ∈ es.toList.map (·.span) ↔ es.hasSpan s = true := by
  rw [hasSpan_iff, List.mem_map]

theorem size_queue_of_hasSpan (h : es.hasSpan s = true) : (es.queue s text).size = es.size := by
  have hperm : ((es.queue s text).toList.map (·.span)).Perm (es.toList.map (·.span)) := by
    rw [List.perm_ext_iff_of_nodup (nodup_spans _) (nodup_spans _)]
    intro u
    rw [mem_spans_iff, mem_spans_iff, hasSpan_queue]
    exact ⟨fun hu => hu.elim (fun hu => hu ▸ h) id, .inr⟩
  simpa [size] using hperm.length_eq

theorem size_queue_of_not_hasSpan (h : es.hasSpan s = false) :
    (es.queue s text).size = es.size + 1 := (perm_queue h).length_eq

/-! ### Growth -/

/-- Replacements queued one after the other, each allowed at its time. -/
inductive Grows (P : Edits → Span → Prop) : Edits → Edits → Prop
  | refl (es : Edits) : Grows P es es
  | queue {es fs : Edits} {s : Span} (text : String) :
      Grows P es fs → P fs s → Grows P es (fs.queue s text)

namespace Grows

variable {P Q : Edits → Span → Prop}

theorem trans {gs : Edits} (h : Grows P es fs) (h' : Grows P fs gs) : Grows P es gs := by
  induction h' with
  | refl => exact h
  | queue text _ hs ih => exact .queue text ih hs

theorem mono (hPQ : ∀ es s, P es s → Q es s) (h : Grows P es fs) : Grows Q es fs := by
  induction h with
  | refl => exact .refl _
  | queue text _ hs ih => exact .queue text ih (hPQ _ _ hs)

theorem hasSpan (h : Grows P es fs) (hs : es.hasSpan s = true) : fs.hasSpan s = true := by
  induction h with
  | refl => exact hs
  | queue text _ _ ih => exact hasSpan_queue.2 (.inr ih)

/-- What is listed at the beginning is listed whenever a replacement is allowed. -/
theorem mono_of_hasSpan (hPQ : ∀ gs s, gs.hasSpan u = true → P gs s → Q gs s) (h : Grows P es fs)
    (hu : es.hasSpan u = true) : Grows Q es fs := by
  induction h with
  | refl => exact .refl _
  | queue text hgrows hs ih => exact .queue text ih (hPQ _ _ (hgrows.hasSpan hu) hs)

theorem isFree (h : Grows P es fs) (hs : fs.isFree s = true) : es.isFree s = true := by
  rw [isFree_iff] at *
  exact fun u hu => hs u (h.hasSpan hu)

theorem hasSpan_cases (h : Grows P es fs) (hs : fs.hasSpan s = true) :
    es.hasSpan s = true ∨ ∃ gs, Grows P es gs ∧ P gs s := by
  induction h with
  | refl => exact .inl hs
  | queue text hgrows hu ih =>
    rcases hasSpan_queue.1 hs with rfl | hs
    · exact .inr ⟨_, hgrows, hu⟩
    · exact ih hs

theorem prefix_textAt? (h : Grows P es fs) (hs : es.textAt? s = some text) :
    ∃ text', fs.textAt? s = some text' ∧ text.toList <+: text'.toList := by
  induction h with
  | refl => exact ⟨text, hs, List.prefix_rfl⟩
  | queue more _ _ ih =>
    obtain ⟨middle, hmiddle, hpre⟩ := ih
    obtain ⟨last, hlast, hpre'⟩ := prefix_textAt?_queue hmiddle
    exact ⟨last, hlast, hpre.trans hpre'⟩

/-- What has been queued is listed, perhaps with other texts around it. -/
theorem exists_listed (h : Grows P (es.queue s text) fs) :
    ∃ x ∈ fs.toList, x.span = s ∧ text.toList <:+: x.text.toList := by
  have hqueued : (es.queue s text).textAt? s = some ((es.textAt? s).getD "" ++ text) := by
    rw [textAt?_queue, if_pos rfl]
  obtain ⟨new, hnew, hprefix⟩ := h.prefix_textAt? hqueued
  refine ⟨⟨s, new⟩, mem_toList_iff.2 hnew, rfl, List.IsInfix.trans ?_ hprefix.isInfix⟩
  rw [String.toList_append]
  exact (List.suffix_append _ _).isInfix

theorem textAt?_of_not (hP : ∀ es, es.hasSpan s = true → ¬ P es s) (h : Grows P es fs)
    (hs : es.textAt? s = some text) : fs.textAt? s = some text := by
  induction h with
  | refl => exact hs
  | @queue fs u more hgrows hu ih =>
    have hlisted : fs.hasSpan s = true := by
      by_contra hnone
      rw [Bool.not_eq_true, ← textAt?_eq_none_iff, ih] at hnone
      simp at hnone
    have hne : s ≠ u := by
      rintro rfl
      exact hP _ hlisted hu
    rw [textAt?_queue, if_neg hne, ih]

theorem textAt?_eq_of_not (hP : ∀ es, ¬ P es s) (h : Grows P es fs) :
    fs.textAt? s = es.textAt? s := by
  induction h with
  | refl => rfl
  | @queue fs u text _ hu ih =>
    have hne : s ≠ u := by
      rintro rfl
      exact hP _ hu
    rw [textAt?_queue, if_neg hne, ih]

/-- Where only free spans are queued, the text for a span that is not empty stays as it is. -/
theorem textAt?_eq (hP : ∀ es s, P es s → es.isFree s = true) (h : Grows P es fs)
    (hs : es.textAt? s = some text) (hwide : s.start < s.stop) : fs.textAt? s = some text := by
  refine textAt?_of_not (fun es hlisted hu => ?_) h hs
  have := eq_of_isFree_of_hasSpan (hP _ _ hu) hlisted
  omega

theorem size_le (h : Grows P es fs) : es.size ≤ fs.size := by
  induction h with
  | refl => exact Nat.le_refl _
  | @queue fs s text _ _ ih =>
    cases hs : fs.hasSpan s with
    | true => rwa [size_queue_of_hasSpan hs]
    | false =>
      rw [size_queue_of_not_hasSpan hs]
      omega

theorem hasSpan_iff_of_size_eq (h : Grows P es fs) (hsize : fs.size = es.size) :
    fs.hasSpan u = true ↔ es.hasSpan u = true := by
  induction h with
  | refl => exact Iff.rfl
  | @queue fs s text hgrows _ ih =>
    have hle := hgrows.size_le
    cases hs : fs.hasSpan s with
    | true =>
      rw [size_queue_of_hasSpan hs] at hsize
      rw [hasSpan_queue, ← ih hsize]
      exact ⟨fun h => h.elim (fun h => h ▸ hs) id, .inr⟩
    | false =>
      rw [size_queue_of_not_hasSpan hs] at hsize
      omega

theorem isFree_iff_of_size_eq (h : Grows P es fs) (hsize : fs.size = es.size) :
    fs.isFree u = true ↔ es.isFree u = true := by
  rw [Edits.isFree_iff, Edits.isFree_iff]
  simp only [h.hasSpan_iff_of_size_eq hsize]

end Grows

end Edits

end SourceRename
