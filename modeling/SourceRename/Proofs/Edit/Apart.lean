import SourceRename.Proofs.Edit.Commit

/-!
# Replacements that stand apart are all applied

If a text with a row of replacements put in exists at all, queueing the row and applying the list
gives just that text, and nothing is refused:

    Spliced 0 text calls result  →  (ofCalls calls).applyTo? text = some (result, [])

(`applyTo?_of_spliced`).  The row may hold empty spans at one offset.  They become one entry of the
list, whose text is theirs one after the other, so the two rows put the same text in
(`spliced_insert`).

A text with replacements put in can also be read part by part.  Where one of them is stands its text
(`Spliced.middle`), and what all of them stand apart from is kept (`Spliced.keep`).
-/

namespace SourceRename

namespace Spliced

variable {start : Nat} {rest tail result : List Char} {e f : Edit} {es fs : List Edit}

/-! ### Longer and shorter rows -/

theorem skip (kept : List Char) (h : Spliced (start + byteLength kept) rest es result) :
    Spliced start (kept ++ rest) es (kept ++ result) := by
  cases h with
  | done => exact .done _ _
  | @put _ kept' covered rest result e es hstart hstop h =>
    have hkept : e.span.start = start + byteLength (kept ++ kept') := by
      rw [byteLength_append]
      omega
    have := Spliced.put hkept hstop h
    simpa using this

theorem first {covered : List Char} (hstart : e.span.start = start)
    (hstop : e.span.stop = start + byteLength covered) (h : Spliced e.span.stop rest es result) :
    Spliced start (covered ++ rest) (e :: es) (e.text.toList ++ result) :=
  @Spliced.put start [] covered rest result e es hstart (hstart ▸ hstop) h

theorem append {more : List Char} (h : Spliced start rest es result)
    (hmore : Spliced (start + byteLength rest) more fs tail) :
    Spliced start (rest ++ more) (es ++ fs) (result ++ tail) := by
  induction h with
  | done start rest => exact hmore.skip rest
  | @put start kept covered rest result e es hstart hstop _ ih =>
    have hat : start + byteLength (kept ++ covered ++ rest) = e.span.stop + byteLength rest := by
      simp only [byteLength_append]
      omega
    rw [hat] at hmore
    have := Spliced.put hstart hstop (ih hmore)
    simpa using this

theorem within (h : Spliced start rest es result) : StandApart es ∧
    ∀ e ∈ es, start ≤ e.span.start ∧ e.span.stop ≤ start + byteLength rest := by
  induction h with
  | done => exact ⟨.nil, by simp⟩
  | @put start kept covered rest result e es hstart hstop _ ih =>
    obtain ⟨hapart, hin⟩ := ih
    refine ⟨List.pairwise_cons.2 ⟨fun f hf => (hin f hf).1, hapart⟩, ?_⟩
    intro f hf
    simp only [byteLength_append]
    rcases List.mem_cons.1 hf with rfl | hf
    · omega
    · have := hin f hf
      omega

/-- **What all replacements stand apart from is kept**: text, row and result can be cut in front of
it and behind it. -/
theorem keep {before covered after : List Char}
    (h : Spliced start (before ++ covered ++ after) es result)
    (hes : ∀ e ∈ es, e.span.stop ≤ start + byteLength before ∨
      start + byteLength (before ++ covered) ≤ e.span.start) :
    ∃ fs bs before' after', es = fs ++ bs ∧ result = before' ++ covered ++ after' ∧
      Spliced start before fs before' ∧
      Spliced (start + byteLength (before ++ covered)) after bs after' := by
  generalize htext : before ++ covered ++ after = text at h
  induction h generalizing before with
  | done start text =>
    subst htext
    exact ⟨[], [], before, after, rfl, rfl, .done _ _, .done _ _⟩
  | @put start kept gone rest result e es hstart hstop hrest ih =>
    obtain ⟨he, hes⟩ := List.forall_mem_cons.1 hes
    rcases he with hfront | hback
    · -- the replacement belongs to the part in front
      obtain ⟨more, rfl, rfl⟩ := prefix_of_byteLength_le
          ((List.append_assoc _ _ _).symm.trans htext).symm (by
        rw [byteLength_append]
        omega)
      have hat : ∀ cs, start + byteLength (kept ++ gone ++ more ++ cs) =
          e.span.stop + byteLength (more ++ cs) := by
        intro cs
        simp only [byteLength_append]
        omega
      have hmore := hat []
      rw [List.append_nil, List.append_nil] at hmore
      rw [hmore, hat] at hes
      obtain ⟨fs, bs, before', after', rfl, rfl, hfs, hbs⟩ := ih hes (List.append_assoc _ _ _)
      rw [hat]
      exact ⟨e :: fs, bs, kept ++ e.text.toList ++ before', after', rfl, by simp,
        .put hstart hstop hfs, hbs⟩
    · obtain ⟨more, rfl, rfl⟩ := prefix_of_byteLength_le
        (htext.trans (List.append_assoc kept gone rest)) (by omega)
      rw [byteLength_append (before ++ covered)] at hstart
      refine ⟨[], e :: es, before, more ++ e.text.toList ++ result, rfl, by simp, .done _ _, ?_⟩
      rw [← List.append_assoc]
      exact .put (by omega) hstop hrest

/-- **What stands at a replacement**: its text, between what has become of the text in front of it
and of the text behind it. -/
theorem middle (h : Spliced start rest (fs ++ e :: es) result) :
    ∃ before covered after before' after', rest = before ++ covered ++ after ∧
      result = before' ++ e.text.toList ++ after' ∧
      e.span.start = start + byteLength before ∧
      e.span.stop = e.span.start + byteLength covered ∧
      Spliced start before fs before' ∧ Spliced e.span.stop after es after' := by
  induction fs generalizing start rest result with
  | nil =>
    cases h with
    | @put _ kept covered rest tail _ _ hstart hstop h =>
      exact ⟨kept, covered, rest, kept, tail, rfl, rfl, hstart, hstop, .done _ _, h⟩
  | cons f fs ih =>
    cases h with
    | @put _ kept gone rest tail _ _ hstart hstop h =>
      obtain ⟨before, covered, after, before', after', rfl, rfl, hfront, hcovered, hfs, hes⟩ :=
        ih h
      refine ⟨kept ++ gone ++ before, covered, after, kept ++ f.text.toList ++ before', after',
        by simp, by simp, ?_, hcovered, .put hstart hstop hfs, hes⟩
      simp only [byteLength_append]
      omega

theorem filter (h : Spliced start rest es result) :
    Spliced start rest (es.filter fun e => !(e.span.isEmpty && e.text.isEmpty)) result := by
  induction h with
  | done start rest => exact .done _ _
  | @put start kept covered rest result e es hstart hstop _ ih =>
    by_cases hempty : (e.span.isEmpty && e.text.isEmpty) = true
    · rw [List.filter_cons_of_neg (by simp [hempty])]
      obtain ⟨hspan, htext⟩ := Bool.and_eq_true_iff.1 hempty
      have hwidth : e.span.start = e.span.stop := beq_iff_eq.1 hspan
      obtain rfl : covered = [] := byteLength_eq_zero.1 (by omega)
      have hnil : e.text.toList = [] := by
        rw [String.isEmpty_iff.1 htext]
        rfl
      have := Spliced.skip kept (by rwa [← hstart, hwidth])
      simpa [hnil] using this
    · rw [List.filter_cons_of_pos (by simp only [hempty, Bool.not_false])]
      exact .put hstart hstop ih

/-- Two empty spans at one offset are one, with both texts. -/
theorem merge (h : Spliced start rest (f :: e :: es) result) (heq : e.span = f.span) :
    Spliced start rest (⟨f.span, f.text ++ e.text⟩ :: es) result := by
  have hapart : f.span.stop ≤ e.span.start := (List.pairwise_cons.1 h.within.1).1 e (by simp)
  rw [heq] at hapart
  have hspan := f.span.start_le_stop
  cases h with
  | @put _ kept covered _ _ _ _ hstart hstop h =>
    cases h with
    | @put _ kept' covered' rest tail _ _ hstart' hstop' h =>
      rw [heq] at hstart' hstop' h
      obtain rfl : kept' = [] := byteLength_eq_zero.1 (by omega)
      obtain rfl : covered' = [] := byteLength_eq_zero.1 (by omega)
      have := Spliced.put (e := ⟨f.span, f.text ++ e.text⟩) hstart hstop h
      simpa using this

end Spliced

namespace Edits

variable {start : Nat} {text : String} {rest result : List Char} {e : Edit} {es fs : List Edit}

/-! ### Queueing behind all that is listed -/

/-- Behind all that is listed, queueing puts the same text in as standing at the end of the row. -/
theorem spliced_insert (hfs : fs.Pairwise fun a b => a.span.precedes b.span = true)
    (h : Spliced start rest (fs ++ e :: es) result) :
    Spliced start rest (insert e fs ++ es) result := by
  induction fs generalizing start rest result with
  | nil => exact h
  | cons f fs ih =>
    obtain ⟨hf, hfs⟩ := List.pairwise_cons.1 hfs
    obtain ⟨hhead, -⟩ := List.pairwise_cons.1 h.within.1
    have hfe : f.span.stop ≤ e.span.start := hhead e (by simp)
    have hspan := f.span.start_le_stop
    rw [insert]
    split
    · next heq =>
      -- both are empty, and nothing is listed between them
      have hnil : fs = [] := by
        cases fs with
        | nil => rfl
        | cons g gs =>
          have hprec := Span.precedes_iff.1 (hf g (by simp))
          have hge : g.span.stop ≤ e.span.start := by
            have := (List.pairwise_append.1 h.within.1).2.2 g (by simp) e (by simp)
            exact this
          have := g.span.start_le_stop
          rw [heq] at hge hfe
          omega
      subst hnil
      exact h.merge heq
    · split
      · next hprec =>
        have := Span.precedes_iff.1 hprec
        have := e.span.start_le_stop
        omega
      · cases h with
        | put hstart hstop h => exact .put hstart hstop (ih hfs h)

theorem spliced_queueAll {es : Edits} {calls : List Edit}
    (h : Spliced start rest (es.toList ++ calls) result) :
    Spliced start rest (es.queueAll calls).toList result := by
  induction calls generalizing es with
  | nil => rwa [List.append_nil] at h
  | cons c cs ih => exact ih (spliced_insert es.ascending h)

/-! ### Applying what stands apart -/

theorem plan_of_standApart {length : Nat} (hes : StandApart es)
    (hin : ∀ e ∈ es, e.span.stop ≤ length) : EditPlan.ofList length es = ⟨es, []⟩ := by
  induction es with
  | nil => rfl
  | cons e es ih =>
    obtain ⟨hhead, hes⟩ := List.pairwise_cons.1 hes
    obtain ⟨he, hin⟩ := List.forall_mem_cons.1 hin
    rw [EditPlan.ofList_cons, ih hes hin, EditPlan.add, if_neg]
    cases es with
    | nil => exact Nat.not_lt_of_le he
    | cons f fs => exact Nat.not_lt_of_le (hhead f (by simp))

/-- **A row that can be put into a text is applied as it is**, and nothing of it is refused. -/
theorem applyTo?_of_spliced {calls : List Edit} (h : Spliced 0 text.toList calls result) :
    (ofCalls calls).applyTo? text = some (String.ofList result, []) := by
  have hlist : Spliced 0 text.toList (ofCalls calls).toList result := spliced_queueAll h
  obtain ⟨hapart, hin⟩ := hlist.within
  have hplan : (ofCalls calls).plan text.utf8ByteSize = ⟨(ofCalls calls).toList, []⟩ := by
    apply plan_of_standApart hapart
    intro e he
    have := (hin e he).2
    rwa [Nat.zero_add, byteLength_toList] at this
  rw [applyTo?, hplan, hlist.splice?_eq]
  rfl

end Edits

end SourceRename
