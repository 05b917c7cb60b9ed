import SourceRename.Proofs.Edit.Commit
import SourceRename.Proofs.Edit.Growth

/-!
# How far freeness goes

A span is free if it shares no byte with a listed one.  Where only free spans are queued, no two
listed spans share a byte (`Edits.Separate`, `Edits.Grows.separate`).  This does not yet put one
behind the other: an empty span shares nothing with a span that it pierces, that is, which has bytes
on both sides of it.  The list is applied from its end, so the empty span is taken and the span
around it is refused.  Nothing else is refused that ends inside the text:

    e ∈ applied  ↔  no empty span that is listed pierces e

(`Edits.mem_applied_iff_of_separate`).  `apply_queued_free` says this of any row of calls, each made
for a span that was free at its time.
-/

namespace SourceRename

/-- The first span is empty and the second one has bytes on both sides of it. -/
def Span.pierces (z s : Span) : Bool := z.isEmpty && s.start < z.start && z.start < s.stop

theorem Span.pierces_iff {z s : Span} : z.pierces s = true ↔
    z.start = z.stop ∧ s.start < z.start ∧ z.start < s.stop := by
  simp [pierces, isEmpty, and_assoc]

namespace Edits

variable {es fs : Edits} {s : Span} {text : String} {length : Nat} {e z : Edit}

/-! ### Lists in which no two spans share a byte -/

/-- No two listed spans share a byte. -/
def Separate (es : Edits) : Prop :=
  ∀ u v, es.hasSpan u = true → es.hasSpan v = true → u ≠ v → u.overlaps v = false

theorem separate_empty : empty.Separate := nofun

theorem Separate.queue (h : es.Separate) (hfree : es.isFree s = true) :
    (es.queue s text).Separate := by
  rw [isFree_iff] at hfree
  intro u v hu hv hne
  rcases hasSpan_queue.1 hu with rfl | hu'
  · rcases hasSpan_queue.1 hv with rfl | hv'
    · exact absurd rfl hne
    · rw [Span.overlaps_comm]
      exact hfree v hv'
  · rcases hasSpan_queue.1 hv with rfl | hv'
    · exact hfree u hu'
    · exact h u v hu' hv' hne

/-- **Queueing what is free keeps the spans separate.** -/
theorem Grows.separate {P : Edits → Span → Prop} (hP : ∀ es s, P es s → es.isFree s = true)
    (h : Grows P es fs) (hes : es.Separate) : fs.Separate := by
  induction h with
  | refl => exact hes
  | queue text _ hs ih => exact ih.queue (hP _ _ hs)

theorem Separate.standApart (h : es.Separate)
    (hwide : ∀ e ∈ es.toList, e.span.start < e.span.stop) : StandApart es.toList := by
  refine es.ascending.imp_of_mem ?_
  intro e f he hf hprec
  have hapart := h e.span f.span (hasSpan_iff.2 ⟨e, he, rfl⟩) (hasSpan_iff.2 ⟨f, hf, rfl⟩)
    (Span.ne_of_precedes hprec)
  rw [Bool.eq_false_iff, ne_eq, Span.overlaps_iff] at hapart
  have := hwide e he
  have := hwide f hf
  rw [Span.precedes_iff] at hprec
  omega

/-- What begins in the middle of another span is empty. -/
theorem Separate.pierces (h : es.Separate) (he : e ∈ es.toList) (hz : z ∈ es.toList)
    (hstart : e.span.start < z.span.start) (hstop : z.span.start < e.span.stop) :
    z.span.pierces e.span = true := by
  have hne : z.span ≠ e.span := by
    intro heq
    rw [heq] at hstart
    exact Nat.lt_irrefl _ hstart
  have hapart := h z.span e.span (hasSpan_iff.2 ⟨z, hz, rfl⟩) (hasSpan_iff.2 ⟨e, he, rfl⟩) hne
  rw [Bool.eq_false_iff, ne_eq, Span.overlaps_iff] at hapart
  have hspan := z.span.start_le_stop
  exact Span.pierces_iff.2 ⟨by omega, hstart, hstop⟩

/-- **What freeness leaves to ask**: a listed replacement is taken if and only if it ends inside the
text and no empty span that is listed pierces it. -/
theorem mem_applied_iff_of_separate (h : es.Separate) (he : e ∈ es.toList) :
    e ∈ (es.plan length).applied ↔
      e.span.stop ≤ length ∧ ∀ z ∈ es.toList, z.span.pierces e.span = false := by
  constructor
  · intro happ
    obtain ⟨hlength, hbehind⟩ := (mem_applied_iff he).1 happ
    refine ⟨hlength, fun z hz => ?_⟩
    rw [Bool.eq_false_iff]
    intro hpierce
    obtain ⟨hempty, hstart, hstop⟩ := Span.pierces_iff.1 hpierce
    have htaken := mem_plan_of_isEmpty es length hz (by omega) (beq_iff_eq.2 hempty)
    have := hbehind z htaken (Span.precedes_iff.2 (.inl hstart))
    omega
  · rintro ⟨hlength, hclear⟩
    apply mem_plan_of_clear es length he hlength
    intro f hf hprec
    by_contra hlt
    rcases Span.precedes_iff.1 hprec with hstart | ⟨hstart, hstop⟩
    · have hpierce := h.pierces he hf hstart (Nat.lt_of_not_le hlt)
      rw [hclear f hf] at hpierce
      exact Bool.false_ne_true hpierce
    · -- both begin at one offset, so they share its byte
      have hapart := h e.span f.span (hasSpan_iff.2 ⟨e, he, rfl⟩) (hasSpan_iff.2 ⟨f, hf, rfl⟩)
        (Span.ne_of_precedes hprec)
      rw [Bool.eq_false_iff, ne_eq, Span.overlaps_iff] at hapart
      omega

/-! ### Nothing is refused -/

theorem conflicts_eq_nil_iff (es : Edits) (length : Nat) :
    (es.plan length).conflicts = [] ↔ ∀ e ∈ es.toList, e ∈ (es.plan length).applied := by
  have hperm := es.perm_plan length
  constructor
  · intro hnil e he
    rw [hnil, List.map_nil, List.append_nil] at hperm
    exact hperm.symm.subset he
  · intro hall
    rw [List.eq_nil_iff_forall_not_mem]
    intro c hc
    have hmem : c.edit ∈ (es.plan length).conflicts.map Conflict.edit := List.mem_map_of_mem hc
    have happ := hall c.edit (hperm.subset (List.mem_append_right _ hmem))
    -- each span is listed once
    have hnodup := ((hperm.map (·.span)).nodup_iff).2 es.nodup_spans
    rw [List.map_append] at hnodup
    exact (List.disjoint_of_nodup_append hnodup) (List.mem_map_of_mem happ)
      (List.mem_map_of_mem hmem)

/-! ### Rows of calls -/

/-- Each call is for a span that is free at its time. -/
def queuesFreely (es : Edits) : List Edit → Bool
  | [] => true
  | c :: cs => es.isFree c.span && (es.queue c.span c.text).queuesFreely cs

theorem grows_queueAll {calls : List Edit} (h : es.queuesFreely calls = true) :
    Grows (fun es s => es.isFree s = true) es (es.queueAll calls) := by
  induction calls generalizing es with
  | nil => exact .refl es
  | cons c cs ih =>
    obtain ⟨hfree, hrest⟩ := Bool.and_eq_true_iff.1 h
    have hone : Grows (fun es s => es.isFree s = true) es (es.queue c.span c.text) :=
      .queue c.text (.refl es) hfree
    exact hone.trans (ih hrest)

end Edits

open Edits

/-- **Freeness is enough, empty spans apart.**  Where each call is for a span that is free at its
time, and the spans begin and end between characters of the text, the calls can be applied, with
just that put in which is taken.  A call is taken, with all that was queued for its span, if and
only if no empty span that was queued pierces its span.  So nothing is refused if and only if no
queued span is pierced by another one. -/
theorem apply_queued_free (text : String) (calls : List Edit)
    (hfree : empty.queuesFreely calls = true)
    (hcut : ∀ c ∈ calls, Cut text.toList c.span.start ∧ Cut text.toList c.span.stop) :
    let plan := (ofCalls calls).plan text.utf8ByteSize
    ∃ result, (ofCalls calls).applyTo? text = some (result, plan.conflicts) ∧
      Spliced 0 text.toList plan.applied result.toList ∧
      (∀ e ∈ plan.applied, e.span ∈ calls.map (·.span) ∧ e.text = queuedText calls e.span) ∧
      (∀ c ∈ calls, (⟨c.span, queuedText calls c.span⟩ ∈ plan.applied ↔
        ∀ z ∈ calls, z.span.pierces c.span = false)) ∧
      (plan.conflicts = [] ↔ ∀ c ∈ calls, ∀ z ∈ calls, z.span.pierces c.span = false) := by
  intro plan
  have hspan : ∀ e ∈ (ofCalls calls).toList, ∃ c ∈ calls, c.span = e.span := by
    intro e he
    exact List.mem_map.1 (mem_ofCalls_iff.1 he).1
  have hlisted : ∀ c ∈ calls, ⟨c.span, queuedText calls c.span⟩ ∈ (ofCalls calls).toList := by
    intro c hc
    exact mem_ofCalls_iff.2 ⟨List.mem_map.2 ⟨c, hc, rfl⟩, rfl⟩
  have hin : ∀ e ∈ (ofCalls calls).toList, e.span.stop ≤ text.utf8ByteSize := by
    intro e he
    obtain ⟨c, hc, heq⟩ := hspan e he
    rw [← heq, ← byteLength_toList]
    exact (hcut c hc).2.le
  have hseparate : (ofCalls calls).Separate :=
    (grows_queueAll hfree).separate (fun _ _ h => h) separate_empty
  -- what pierces a span may be looked for among the calls as well as in the list
  have htaken : ∀ e ∈ (ofCalls calls).toList,
      (e ∈ plan.applied ↔ ∀ z ∈ calls, z.span.pierces e.span = false) := by
    intro e he
    rw [mem_applied_iff_of_separate hseparate he, and_iff_right (hin e he)]
    constructor
    · intro h z hz
      exact h ⟨z.span, queuedText calls z.span⟩ (hlisted z hz)
    · intro h z hz
      obtain ⟨c, hc, heq⟩ := hspan z hz
      rw [← heq]
      exact h c hc
  obtain ⟨result, happly, hspliced⟩ := (ofCalls calls).exists_applyTo? text fun e he => by
    obtain ⟨c, hc, heq⟩ := hspan e (mem_of_mem_applied he)
    rw [← heq]
    exact hcut c hc
  refine ⟨result, happly, hspliced, ?_, ?_, ?_⟩
  · intro e he
    exact mem_ofCalls_iff.1 (mem_of_mem_applied he)
  · intro c hc
    exact htaken _ (hlisted c hc)
  · rw [conflicts_eq_nil_iff]
    constructor
    · intro h c hc
      exact (htaken _ (hlisted c hc)).1 (h _ (hlisted c hc))
    · intro h e he
      obtain ⟨c, hc, heq⟩ := hspan e he
      rw [htaken e he, ← heq]
      exact h c hc

/-- Two spans with an insertion between them, queued in two parts. -/
theorem apply_queued_free_between :
    let calls : List Edit := [⟨⟨0, 4, by decide⟩, "x"⟩, ⟨.empty 4, "-"⟩,
      ⟨⟨4, 7, by decide⟩, "y"⟩, ⟨.empty 4, "+"⟩]
    empty.queuesFreely calls = true ∧
    (∀ c ∈ calls, Cut "abcdéf".toList c.span.start ∧ Cut "abcdéf".toList c.span.stop) ∧
    ((ofCalls calls).plan "abcdéf".utf8ByteSize).conflicts = [] := by
  intro calls
  have hfree : empty.queuesFreely calls = true := by decide
  have hcut : ∀ c ∈ calls,
      Cut "abcdéf".toList c.span.start ∧ Cut "abcdéf".toList c.span.stop := by decide
  obtain ⟨-, -, -, -, -, hconflicts⟩ := apply_queued_free "abcdéf" calls hfree hcut
  exact ⟨hfree, hcut, hconflicts.2 (by decide)⟩

/-- Each of two spans was free when it was queued, and still one of them is refused: what is
inserted at the second one pierces the first one. -/
theorem pierced_refused :
    let calls : List Edit := [⟨⟨0, 4, by decide⟩, ""⟩, ⟨.empty 2, "y"⟩]
    empty.queuesFreely calls = true ∧
    (∀ c ∈ calls, Cut "abcdef".toList c.span.start ∧ Cut "abcdef".toList c.span.stop) ∧
    (ofCalls calls).applyTo? "abcdef" =
      some ("abycdef", [⟨⟨0, 4, by decide⟩, "", some (.empty 2)⟩]) := by
  decide

end SourceRename
