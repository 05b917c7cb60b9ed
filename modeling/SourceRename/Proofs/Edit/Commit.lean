import SourceRename.Proofs.Edit.Queue
import SourceRename.Proofs.Edit.Splice

/-!
# Which replacements are taken

`Edits.plan` goes through the replacements from the end of the text backwards and keeps one number,
the limit in front of which the next replacement must end.  Three facts come out of this one pass.

* Nothing is lost: the replacements taken and those refused are together the replacements given
  (`perm_plan`), each part in the order in which they were given.
* The replacements taken stand apart and end inside the text (`standApart_plan`, `plan_within`).
* A refused replacement had a reason (`reason_of_conflict`): it ends behind the end of the text and
  nothing behind it was taken, or it reaches over the start of one that was taken.

`apply_queued` puts them together with what it means to splice replacements into a text.
-/

namespace SourceRename

def Conflict.edit (c : Conflict) : Edit := ⟨c.span, c.text⟩

/-- Why a replacement was refused, given those that were taken. -/
def Conflict.Reason (length : Nat) (applied : List Edit) (c : Conflict) : Prop :=
  (c.existing = none ∧ length < c.span.stop ∧ ∀ e ∈ applied, c.span.precedes e.span = false) ∨
    ∃ x ∈ applied, c.existing = some x.span ∧ c.span.start ≤ x.span.start ∧
      x.span.start < c.span.stop

namespace EditPlan

variable {length : Nat} {es : List Edit}

def ofList (length : Nat) (es : List Edit) : EditPlan := es.foldr (add length) ⟨[], []⟩

theorem ofList_cons (e : Edit) (es : List Edit) :
    ofList length (e :: es) = add length e (ofList length es) := rfl

/-- One step of the pass: the replacement is refused or taken, depending on the limit. -/
theorem add_cases (length : Nat) (e : Edit) (p : EditPlan) :
    (p.limit length < e.span.stop ∧ add length e p =
        ⟨p.applied, ⟨e.span, e.text, p.applied.head?.map (·.span)⟩ :: p.conflicts⟩) ∨
      (e.span.stop ≤ p.limit length ∧ add length e p = ⟨e :: p.applied, p.conflicts⟩) := by
  by_cases h : p.limit length < e.span.stop
  · exact .inl ⟨h, by rw [add, if_pos h]⟩
  · exact .inr ⟨Nat.le_of_not_lt h, by rw [add, if_neg h]⟩

/-! ### Nothing is lost -/

theorem perm_ofList (es : List Edit) :
    ((ofList length es).applied ++ (ofList length es).conflicts.map Conflict.edit).Perm es := by
  induction es with
  | nil => exact .nil
  | cons e es ih =>
    rw [ofList_cons]
    rcases add_cases length e (ofList length es) with ⟨-, h⟩ | ⟨-, h⟩
    · rw [h, List.map_cons]
      exact List.perm_middle.trans (ih.cons e)
    · rw [h, List.cons_append]
      exact ih.cons e

theorem applied_sublist (es : List Edit) : (ofList length es).applied.Sublist es := by
  induction es with
  | nil => exact .slnil
  | cons e es ih =>
    rw [ofList_cons]
    rcases add_cases length e (ofList length es) with ⟨-, h⟩ | ⟨-, h⟩
    · rw [h]
      exact ih.cons e
    · rw [h]
      exact ih.cons_cons e

theorem conflicts_sublist (es : List Edit) :
    ((ofList length es).conflicts.map Conflict.edit).Sublist es := by
  induction es with
  | nil => exact .slnil
  | cons e es ih =>
    rw [ofList_cons]
    rcases add_cases length e (ofList length es) with ⟨-, h⟩ | ⟨-, h⟩
    · rw [h]
      exact ih.cons_cons e
    · rw [h]
      exact ih.cons e

/-! ### What is taken stands apart -/

/-- The invariant of the pass: what has been taken lies behind the limit, inside the text, and
stands apart. -/
theorem applied_ofList (length : Nat) (es : List Edit) :
    StandApart (ofList length es).applied ∧
      (∀ e ∈ (ofList length es).applied,
        (ofList length es).limit length ≤ e.span.start ∧ e.span.stop ≤ length) ∧
      (ofList length es).limit length ≤ length := by
  induction es with
  | nil => exact ⟨.nil, by simp [ofList], by simp [ofList, limit]⟩
  | cons e es ih =>
    obtain ⟨hapart, hin, hlimit⟩ := ih
    rw [ofList_cons]
    rcases add_cases length e (ofList length es) with ⟨-, h⟩ | ⟨hle, h⟩
    · rw [h]
      exact ⟨hapart, hin, hlimit⟩
    · have hspan := e.span.start_le_stop
      rw [h]
      refine ⟨List.pairwise_cons.2 ⟨fun f hf => Nat.le_trans hle (hin f hf).1, hapart⟩, ?_, ?_⟩
      · intro f hf
        rcases List.mem_cons.1 hf with rfl | hf
        · exact ⟨Nat.le_refl _, by omega⟩
        · have := (hin f hf).1
          exact ⟨show e.span.start ≤ f.span.start by omega, (hin f hf).2⟩
      · show e.span.start ≤ length
        omega

/-! ### Which replacements are taken -/

/-- The limit is the first offset of what has been taken, or the end of the text. -/
theorem le_limit_ofList_iff {n : Nat} : n ≤ (ofList length es).limit length ↔
    n ≤ length ∧ ∀ f ∈ (ofList length es).applied, n ≤ f.span.start := by
  obtain ⟨-, hin, hlimit⟩ := applied_ofList length es
  constructor
  · intro h
    exact ⟨Nat.le_trans h hlimit, fun f hf => Nat.le_trans h (hin f hf).1⟩
  · rintro ⟨hlength, h⟩
    rw [limit]
    cases happ : (ofList length es).applied with
    | nil => exact hlength
    | cons e rest => exact h e (happ ▸ List.mem_cons_self)

/-- A replacement is taken if and only if it ends inside the text and in front of all that is taken
of what comes after it. -/
theorem mem_applied_ofList_iff {e : Edit}
    (hes : es.Pairwise fun a b => a.span.precedes b.span = true) (he : e ∈ es) :
    e ∈ (ofList length es).applied ↔ e.span.stop ≤ length ∧
      ∀ f ∈ (ofList length es).applied, e.span.precedes f.span = true →
        e.span.stop ≤ f.span.start := by
  induction es with
  | nil => simp at he
  | cons x xs ih =>
    obtain ⟨hx, hxs⟩ := List.pairwise_cons.1 hes
    have hafter : ∀ f ∈ (ofList length xs).applied, x.span.precedes f.span = true :=
      fun f hf => hx f ((applied_sublist xs).subset hf)
    rw [ofList_cons]
    rcases List.mem_cons.1 he with rfl | hmem
    · rcases add_cases length e (ofList length xs) with ⟨hlt, h⟩ | ⟨hle, h⟩
      · rw [h]
        refine iff_of_false (fun happ => Span.ne_of_precedes (hafter e happ) rfl) ?_
        rintro ⟨hlength, hclear⟩
        have := le_limit_ofList_iff.2 ⟨hlength, fun f hf => hclear f hf (hafter f hf)⟩
        omega
      · rw [h]
        obtain ⟨hlength, hlimit⟩ := le_limit_ofList_iff.1 hle
        refine iff_of_true List.mem_cons_self ⟨hlength, List.forall_mem_cons.2 ⟨?_, ?_⟩⟩
        · intro hprec
          exact absurd rfl (Span.ne_of_precedes hprec)
        · exact fun f hf _ => hlimit f hf
    · have hprec := hx e hmem
      rcases add_cases length x (ofList length xs) with ⟨-, h⟩ | ⟨-, h⟩
      · rw [h]
        exact ih hxs hmem
      · -- what is added comes first, so it is no reason to refuse the other one
        have hne : e ≠ x := fun heq => Span.ne_of_precedes hprec (heq ▸ rfl)
        rw [h, List.mem_cons, or_iff_right hne, ih hxs hmem, List.forall_mem_cons,
          Span.precedes_asymm hprec]
        exact and_congr_right fun _ =>
          ⟨fun hclear => ⟨nofun, hclear⟩, fun hclear => hclear.2⟩

/-! ### Why a replacement is refused -/

theorem reason_ofList (hes : es.Pairwise fun a b => a.span.precedes b.span = true) :
    ∀ c ∈ (ofList length es).conflicts, c.Reason length (ofList length es).applied := by
  induction es with
  | nil => intro c hc; simp [ofList] at hc
  | cons e es ih =>
    obtain ⟨hhead, htail⟩ := List.pairwise_cons.1 hes
    intro c hc
    have hafter : ∀ f ∈ (ofList length es).applied, e.span.precedes f.span = true :=
      fun f hf => hhead f ((applied_sublist es).subset hf)
    rw [ofList_cons] at hc ⊢
    rcases add_cases length e (ofList length es) with ⟨hlt, h⟩ | ⟨-, h⟩
    · rw [h] at hc ⊢
      rcases List.mem_cons.1 hc with rfl | hc
      · -- the new conflict: the limit is the start of what was taken last, or the end of the text
        rw [limit] at hlt
        cases happ : (ofList length es).applied with
        | nil =>
          rw [happ] at hlt
          exact .inl ⟨rfl, hlt, by simp⟩
        | cons x xs =>
          rw [happ] at hlt hafter
          have hstart := Span.precedes_iff.1 (hafter x (by simp))
          exact .inr ⟨x, by simp, rfl, show e.span.start ≤ x.span.start by omega, hlt⟩
      · exact ih htail c hc
    · rw [h] at hc ⊢
      rcases ih htail c hc with ⟨hnone, hlen, hno⟩ | ⟨x, hx, hreason⟩
      · -- what is taken now comes before all conflicts
        refine .inl ⟨hnone, hlen, ?_⟩
        intro f hf
        rcases List.mem_cons.1 hf with rfl | hf
        · have hmem := (conflicts_sublist es).subset (List.mem_map_of_mem (f := Conflict.edit) hc)
          exact Span.precedes_asymm (hhead _ hmem)
        · exact hno f hf
      · exact .inr ⟨x, List.mem_cons_of_mem e hx, hreason⟩

end EditPlan

namespace Edits

variable (es : Edits) (length : Nat)

/-- Nothing is lost: what is taken and what is refused are together what was queued. -/
theorem perm_plan :
    ((es.plan length).applied ++ (es.plan length).conflicts.map Conflict.edit).Perm es.toList :=
  EditPlan.perm_ofList es.toList

theorem standApart_plan : StandApart (es.plan length).applied :=
  (EditPlan.applied_ofList length es.toList).1

theorem plan_within : ∀ e ∈ (es.plan length).applied, e.span.stop ≤ length :=
  fun e he => ((EditPlan.applied_ofList length es.toList).2.1 e he).2

theorem mem_of_mem_applied {es : Edits} {length : Nat} {e : Edit}
    (he : e ∈ (es.plan length).applied) : e ∈ es.toList :=
  (EditPlan.applied_sublist es.toList).subset he

/-- A listed replacement is taken if and only if it ends inside the text and in front of all that is
taken of what comes after it. -/
theorem mem_applied_iff {es : Edits} {length : Nat} {e : Edit} (he : e ∈ es.toList) :
    e ∈ (es.plan length).applied ↔ e.span.stop ≤ length ∧
      ∀ f ∈ (es.plan length).applied, e.span.precedes f.span = true →
        e.span.stop ≤ f.span.start :=
  EditPlan.mem_applied_ofList_iff es.ascending he

/-- A replacement that no later one reaches into is taken. -/
theorem mem_plan_of_clear {e : Edit} (he : e ∈ es.toList) (hlength : e.span.stop ≤ length)
    (hclear : ∀ f ∈ es.toList, e.span.precedes f.span = true → e.span.stop ≤ f.span.start) :
    e ∈ (es.plan length).applied :=
  (mem_applied_iff he).2 ⟨hlength, fun f hf => hclear f (mem_of_mem_applied hf)⟩

theorem mem_plan_of_apart {e : Edit} (he : e ∈ es.toList) (hlength : e.span.stop ≤ length)
    (hapart : ∀ f ∈ es.toList,
      f.span = e.span ∨ f.span.stop ≤ e.span.start ∨ e.span.stop ≤ f.span.start) :
    e ∈ (es.plan length).applied := by
  apply mem_plan_of_clear es length he hlength
  intro f hf hprec
  have hspan := f.span.start_le_stop
  have := e.span.start_le_stop
  rcases hapart f hf with hsame | hbefore | hbehind
  · exact absurd hsame.symm (Span.ne_of_precedes hprec)
  · rw [Span.precedes_iff] at hprec
    omega
  · exact hbehind

theorem mem_plan_of_isEmpty {e : Edit} (he : e ∈ es.toList) (hlength : e.span.stop ≤ length)
    (hempty : e.span.isEmpty = true) : e ∈ (es.plan length).applied := by
  apply mem_plan_of_clear es length he hlength
  intro f _ hprec
  rw [Span.precedes_iff] at hprec
  have : e.span.start = e.span.stop := beq_iff_eq.1 hempty
  omega

theorem ascending_applied :
    (es.plan length).applied.Pairwise fun a b => a.span.precedes b.span = true :=
  es.ascending.sublist (EditPlan.applied_sublist es.toList)

theorem ascending_conflicts :
    (es.plan length).conflicts.Pairwise fun a b => a.span.precedes b.span = true :=
  List.pairwise_map.1 (es.ascending.sublist (EditPlan.conflicts_sublist es.toList))

theorem reason_of_conflict :
    ∀ c ∈ (es.plan length).conflicts, c.Reason length (es.plan length).applied :=
  EditPlan.reason_ofList es.ascending

/-- Replacements can be applied if the ends of those that are taken lie between characters; the
result is the text with them put in. -/
theorem exists_applyTo? (text : String)
    (hcut : ∀ e ∈ (es.plan text.utf8ByteSize).applied,
      Cut text.toList e.span.start ∧ Cut text.toList e.span.stop) :
    ∃ result, es.applyTo? text = some (result, (es.plan text.utf8ByteSize).conflicts) ∧
      Spliced 0 text.toList (es.plan text.utf8ByteSize).applied result.toList := by
  obtain ⟨result, hresult⟩ := exists_spliced (es.standApart_plan _) hcut
  refine ⟨String.ofList result, ?_, by rwa [String.toList_ofList]⟩
  rw [applyTo?, hresult.splice?_eq]
  rfl

end Edits

/-- **Applying replacements.**  Whatever was queued, if the ends of the replacements taken lie
between characters, then every queued span is taken or refused and not both, with all that was
queued for it; what is taken stands apart inside the text; the result is the text with just that
put in; and what is refused is listed in order, each with its reason. -/
theorem apply_queued (text : String) (calls : List Edit)
    (hcut : ∀ e ∈ ((Edits.ofCalls calls).plan text.utf8ByteSize).applied,
      Cut text.toList e.span.start ∧ Cut text.toList e.span.stop) :
    ∃ applied result conflicts,
      (Edits.ofCalls calls).plan text.utf8ByteSize = ⟨applied, conflicts⟩ ∧
      (Edits.ofCalls calls).applyTo? text = some (result, conflicts) ∧
      (applied.map (·.span) ++ conflicts.map (·.span)).Perm (calls.map (·.span)).dedup ∧
      (∀ e ∈ applied ++ conflicts.map Conflict.edit, e.text = Edits.queuedText calls e.span) ∧
      (applied.Pairwise fun a b => a.span.precedes b.span = true) ∧
      (applied.Pairwise fun a b => a.span.stop ≤ b.span.start) ∧
      (∀ e ∈ applied, e.span.stop ≤ text.utf8ByteSize) ∧
      Spliced 0 text.toList applied result.toList ∧
      (conflicts.Pairwise fun a b => a.span.precedes b.span = true) ∧
      ∀ c ∈ conflicts, c.Reason text.utf8ByteSize applied := by
  obtain ⟨result, happly, hspliced⟩ := (Edits.ofCalls calls).exists_applyTo? text hcut
  have hperm := (Edits.ofCalls calls).perm_plan text.utf8ByteSize
  refine ⟨_, result, _, rfl, happly, ?_, ?_, Edits.ascending_applied _ _,
    Edits.standApart_plan _ _, Edits.plan_within _ _, hspliced, Edits.ascending_conflicts _ _,
    Edits.reason_of_conflict _ _⟩
  · have hspans := hperm.map (·.span)
    rw [List.map_append, List.map_map] at hspans
    exact hspans.trans (Edits.perm_spans_ofCalls calls)
  · intro e he
    exact (Edits.mem_ofCalls_iff.1 (hperm.subset he)).2

/-- Two spans that cross, the second one queued twice, and one behind the end of the text. -/
theorem apply_queued_crossing :
    let calls : List Edit := [⟨⟨0, 4, by decide⟩, "x"⟩, ⟨⟨2, 6, by decide⟩, "y"⟩,
      ⟨⟨9, 12, by decide⟩, "w"⟩, ⟨⟨2, 6, by decide⟩, "z"⟩]
    (∀ e ∈ ((Edits.ofCalls calls).plan "abcdéf".utf8ByteSize).applied,
      Cut "abcdéf".toList e.span.start ∧ Cut "abcdéf".toList e.span.stop) ∧
    ∃ applied result conflicts,
      (Edits.ofCalls calls).plan "abcdéf".utf8ByteSize = ⟨applied, conflicts⟩ ∧
      (Edits.ofCalls calls).applyTo? "abcdéf" = some (result, conflicts) ∧
      Spliced 0 "abcdéf".toList applied result.toList ∧ conflicts.length = 2 := by
  intro calls
  have hcut : ∀ e ∈ ((Edits.ofCalls calls).plan "abcdéf".utf8ByteSize).applied,
      Cut "abcdéf".toList e.span.start ∧ Cut "abcdéf".toList e.span.stop := by
    decide
  obtain ⟨applied, result, conflicts, hplan, happly, -, -, -, -, -, hspliced, -⟩ :=
    apply_queued _ _ hcut
  refine ⟨hcut, applied, result, conflicts, hplan, happly, hspliced, ?_⟩
  have hc := congrArg EditPlan.conflicts hplan
  simp only at hc
  rw [← hc]
  decide

end SourceRename
