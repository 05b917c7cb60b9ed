import SourceRename.Edit.Pending
import Mathlib.Data.List.Dedup

/-!
# What a row of queued replacements leaves behind

`Edits.ofCalls` queues replacements one after the other into an empty list.  The list is read
through one view, `Edits.textAt? es span`, the text queued for a span, and queueing obeys one law
(`textAt?_queue`): the text is appended to what was there for this span, and nothing else changes.
So after any row of calls the text at a span is the concatenation of all texts queued for it
(`textAt?_ofCalls`), whatever was queued in between.
-/

namespace SourceRename

namespace Span

theorem precedes_asymm {a b : Span} (h : a.precedes b = true) : b.precedes a = false := by
  by_contra hn
  have := precedes_trans h (by simpa using hn)
  simp [precedes_irrefl] at this

theorem ne_of_precedes {a b : Span} (h : a.precedes b = true) : a ≠ b := by
  rintro rfl
  simp [precedes_irrefl] at h

end Span

namespace Edits

/-! ### The text queued for a span -/

def textAt? (es : Edits) (span : Span) : Option String :=
  (es.toList.find? (·.span == span)).map (·.text)

theorem nodup_spans (es : Edits) : (es.toList.map (·.span)).Nodup :=
  List.pairwise_map.2 (es.ascending.imp fun h => Span.ne_of_precedes h)

theorem mem_toList_iff {es : Edits} {e : Edit} :
    e ∈ es.toList ↔ es.textAt? e.span = some e.text := by
  constructor
  · intro he
    obtain ⟨f, hf⟩ : ∃ f, es.toList.find? (·.span == e.span) = some f :=
      Option.isSome_iff_exists.1 (List.find?_isSome.2 ⟨e, he, by simp⟩)
    have hspan : f.span = e.span := by simpa using List.find?_some hf
    have hfe : f = e :=
      List.inj_on_of_nodup_map es.nodup_spans (List.mem_of_find?_eq_some hf) he hspan
    rw [textAt?, hf, hfe]
    rfl
  · intro h
    obtain ⟨f, hf, ht⟩ := Option.map_eq_some_iff.1 h
    have hspan : f.span = e.span := by simpa using List.find?_some hf
    have hfe : f = e := by
      cases f
      cases e
      simp_all
    exact hfe ▸ List.mem_of_find?_eq_some hf

theorem hasSpan_iff {es : Edits} {span : Span} :
    es.hasSpan span = true ↔ ∃ e ∈ es.toList, e.span = span := by
  simp [hasSpan]

theorem textAt?_isSome_iff {es : Edits} {span : Span} :
    (es.textAt? span).isSome ↔ ∃ e ∈ es.toList, e.span = span := by
  simp [textAt?]

theorem textAt?_eq_none_iff {es : Edits} {span : Span} :
    es.textAt? span = none ↔ es.hasSpan span = false := by
  simp [textAt?, hasSpan]

/-- The text that is to replace a span, or no text. -/
def textAt (es : Edits) (span : Span) : String := (es.textAt? span).getD ""

theorem textAt?_eq_ite (es : Edits) (span : Span) :
    es.textAt? span = if es.hasSpan span then some (es.textAt span) else none := by
  cases hlisted : es.hasSpan span with
  | false => exact textAt?_eq_none_iff.2 hlisted
  | true =>
    obtain ⟨text, htext⟩ := Option.isSome_iff_exists.1
      (textAt?_isSome_iff.2 (hasSpan_iff.1 hlisted))
    rw [textAt, htext]
    rfl

theorem find?_insert {e : Edit} {span : Span} :
    ∀ {fs : List Edit}, (fs.Pairwise fun a b => a.span.precedes b.span = true) →
      ((insert e fs).find? (·.span == span)).map (·.text) =
        if span = e.span then
          some (((fs.find? (·.span == e.span)).map (·.text)).getD "" ++ e.text)
        else (fs.find? (·.span == span)).map (·.text) := by
  intro fs
  induction fs with
  | nil =>
    intro _
    by_cases h : span = e.span
    · simp [insert, h]
    · simp [insert, h, Ne.symm h]
  | cons f fs ih =>
    intro hp
    rw [List.pairwise_cons] at hp
    simp only [insert]
    split
    · next hs =>
      by_cases h : span = e.span
      · simp [h, hs]
      · have hf : f.span ≠ span := hs ▸ Ne.symm h
        simp [h, hf]
    · next hne =>
      split
      · next hlt =>
        by_cases h : span = e.span
        · -- the span is not listed: what is listed comes after it
          have hnone : (f :: fs).find? (·.span == e.span) = none := by
            rw [List.find?_eq_none]
            intro g hg
            have hgt : e.span.precedes g.span = true := by
              rcases List.mem_cons.1 hg with rfl | hg
              · exact hlt
              · exact Span.precedes_trans hlt (hp.1 g hg)
            simpa using (Span.ne_of_precedes hgt).symm
          rw [if_pos h, hnone]
          simp [h]
        · rw [if_neg h, List.find?_cons_of_neg (by simpa using Ne.symm h)]
      · by_cases h : f.span = span
        · have hse : span ≠ e.span := fun he => hne (by rw [h, he])
          simp [h, hse]
        · rw [List.find?_cons_of_neg (by simpa using h), ih hp.2,
            List.find?_cons_of_neg (by simpa using Ne.symm hne),
            List.find?_cons_of_neg (by simpa using h)]

/-- **Queueing changes one text**: what is queued for a span is appended to what was there. -/
theorem textAt?_queue (es : Edits) (span s : Span) (text : String) :
    (es.queue s text).textAt? span =
      if span = s then some ((es.textAt? s).getD "" ++ text) else es.textAt? span :=
  find?_insert es.ascending

theorem hasSpan_queue {es : Edits} {span s : Span} {text : String} :
    (es.queue s text).hasSpan span = true ↔ span = s ∨ es.hasSpan span = true := by
  have h : ∀ es : Edits, es.hasSpan span = true ↔ (es.textAt? span).isSome := by
    intro es
    rw [hasSpan_iff, textAt?_isSome_iff]
  rw [h, h, textAt?_queue]
  by_cases hs : span = s <;> simp [hs]

theorem perm_insert {e : Edit} {fs : List Edit} (h : ∀ f ∈ fs, f.span ≠ e.span) :
    (insert e fs).Perm (e :: fs) := by
  induction fs with
  | nil => exact .refl _
  | cons f fs ih =>
    obtain ⟨hf, hfs⟩ := List.forall_mem_cons.1 h
    rw [insert, if_neg (Ne.symm hf)]
    split
    · exact .refl _
    · exact ((ih hfs).cons f).trans (.swap e f fs)

theorem perm_queue {es : Edits} {s : Span} {text : String} (h : es.hasSpan s = false) :
    (es.queue s text).toList.Perm (⟨s, text⟩ :: es.toList) := by
  refine perm_insert fun f hf heq => ?_
  rw [hasSpan_iff.2 ⟨f, hf, heq⟩] at h
  exact Bool.noConfusion h

theorem prefix_textAt?_queue {es : Edits} {span s : Span} {t text : String}
    (h : es.textAt? span = some t) :
    ∃ t', (es.queue s text).textAt? span = some t' ∧ t.toList <+: t'.toList := by
  rw [textAt?_queue]
  split
  · next hs =>
    subst hs
    refine ⟨t ++ text, by simp [h], ?_⟩
    rw [String.toList_append]
    exact List.prefix_append _ _
  · exact ⟨t, h, List.prefix_rfl⟩

/-! ### Rows of calls -/

def queueAll (es : Edits) (calls : List Edit) : Edits :=
  calls.foldl (fun es e => es.queue e.span e.text) es

def ofCalls (calls : List Edit) : Edits := empty.queueAll calls

/-- The texts that a row of calls queues for a span, one after the other. -/
def queuedText (calls : List Edit) (span : Span) : String :=
  String.join ((calls.filter (·.span == span)).map (·.text))

theorem queueAll_cons (es : Edits) (c : Edit) (calls : List Edit) :
    es.queueAll (c :: calls) = (es.queue c.span c.text).queueAll calls := rfl

theorem hasSpan_queueAll_iff {es : Edits} {calls : List Edit} {span : Span} :
    (es.queueAll calls).hasSpan span = true ↔
      span ∈ calls.map (·.span) ∨ es.hasSpan span = true := by
  induction calls generalizing es with
  | nil => exact (or_iff_right List.not_mem_nil).symm
  | cons c cs ih =>
    rw [queueAll_cons, ih, hasSpan_queue, List.map_cons, List.mem_cons, or_left_comm, or_assoc]

theorem queuedText_cons (c : Edit) (calls : List Edit) (span : Span) :
    queuedText (c :: calls) span =
      (if span = c.span then c.text else "") ++ queuedText calls span := by
  rw [queuedText, List.filter_cons]
  by_cases h : span = c.span
  · rw [if_pos (beq_iff_eq.2 h.symm), if_pos h, List.map_cons, String.join_cons, queuedText]
  · rw [if_neg fun hspan => h (beq_iff_eq.1 hspan).symm, if_neg h, String.empty_append, queuedText]

theorem queuedText_append (calls calls' : List Edit) (span : Span) :
    queuedText (calls ++ calls') span = queuedText calls span ++ queuedText calls' span := by
  rw [queuedText, List.filter_append, List.map_append, String.join_append, queuedText, queuedText]

/-- **Queueing a row appends its texts** to what was there for each span. -/
theorem textAt_queueAll (es : Edits) (calls : List Edit) (span : Span) :
    (es.queueAll calls).textAt span = es.textAt span ++ queuedText calls span := by
  induction calls generalizing es with
  | nil => exact String.append_empty.symm
  | cons c cs ih =>
    have hone : (es.queue c.span c.text).textAt span =
        es.textAt span ++ (if span = c.span then c.text else "") := by
      rw [textAt, textAt?_queue]
      by_cases h : span = c.span
      · rw [if_pos h, if_pos h, Option.getD_some, h, textAt]
      · rw [if_neg h, if_neg h, String.append_empty, textAt]
    rw [queueAll_cons, ih, hone, queuedText_cons, String.append_assoc]

/-- **The buffer is what was queued**: at each span that occurs among the calls stands the
concatenation of the texts queued for it. -/
theorem textAt?_ofCalls (calls : List Edit) (span : Span) :
    (ofCalls calls).textAt? span =
      if span ∈ calls.map (·.span) then some (queuedText calls span) else none := by
  have hlisted : (ofCalls calls).hasSpan span = true ↔ span ∈ calls.map (·.span) := by
    rw [ofCalls, hasSpan_queueAll_iff]
    exact or_iff_left Bool.false_ne_true
  have htext : (ofCalls calls).textAt span = queuedText calls span :=
    (textAt_queueAll empty calls span).trans String.empty_append
  rw [textAt?_eq_ite, htext]
  simp only [hlisted]

theorem mem_ofCalls_iff {calls : List Edit} {e : Edit} :
    e ∈ (ofCalls calls).toList ↔
      e.span ∈ calls.map (·.span) ∧ e.text = queuedText calls e.span := by
  rw [mem_toList_iff, textAt?_ofCalls]
  by_cases h : e.span ∈ calls.map (·.span)
  · rw [if_pos h, Option.some.injEq]
    exact ⟨fun he => ⟨h, he.symm⟩, fun he => he.2.symm⟩
  · rw [if_neg h]
    exact ⟨fun he => by simp at he, fun he => absurd he.1 h⟩

theorem perm_spans_ofCalls (calls : List Edit) :
    ((ofCalls calls).toList.map (·.span)).Perm (calls.map (·.span)).dedup := by
  rw [List.perm_ext_iff_of_nodup (nodup_spans _) (List.nodup_dedup _)]
  intro span
  rw [List.mem_dedup]
  constructor
  · intro h
    obtain ⟨e, he, rfl⟩ := List.mem_map.1 h
    exact (mem_ofCalls_iff.1 he).1
  · intro h
    exact List.mem_map.2 ⟨⟨span, queuedText calls span⟩, mem_ofCalls_iff.2 ⟨h, rfl⟩, rfl⟩

end Edits

end SourceRename
