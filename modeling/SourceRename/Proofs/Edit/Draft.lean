import SourceRename.Edit.Draft
import SourceRename.Proofs.Edit.Apart
import SourceRename.Proofs.Edit.Growth

/-!
# What is gathered in a draft

A draft gathers replacements, problems and conflicts.  Its text stays the text of the file and what
is listed stays listed: `d.Extends P e` says that `e` comes from `d` by steps of which each queues
what `P` allows, reports or refuses.  So whatever is done with a draft, its report is its text with
the replacements of the plan put in (`spliced_of_result`), and there is one if these begin and end
between characters (`exists_result_iff`).
-/

namespace SourceRename

def Edits.anySpan : Edits → Span → Prop := fun _ _ => True

namespace Draft

variable {d e : Draft} {span : Span} {text : String} {P Q : Edits → Span → Prop}

/-! ### Drafts only grow -/

/-- The second draft has the text of the first one, and lists more replacements. -/
structure Extends (P : Edits → Span → Prop) (d e : Draft) : Prop where
  text : e.text = d.text
  edits : Edits.Grows P d.edits e.edits

namespace Extends

theorem refl (d : Draft) : d.Extends P d := ⟨rfl, .refl _⟩

theorem trans {f : Draft} (h : d.Extends P e) (h' : e.Extends P f) : d.Extends P f :=
  ⟨h'.text.trans h.text, h.edits.trans h'.edits⟩

theorem mono (hPQ : ∀ es s, P es s → Q es s) (h : d.Extends P e) : d.Extends Q e :=
  ⟨h.text, h.edits.mono hPQ⟩

theorem queue (text : String) (h : P d.edits span) : d.Extends P (d.queue span text) :=
  ⟨rfl, .queue text (.refl _) h⟩

theorem replace (text : String) (h : P d.edits span) : d.Extends P (d.replace span text) := by
  rw [Draft.replace]
  split
  · exact refl d
  · exact queue text h

theorem report (d : Draft) (offset : Nat) (problem : Problem) :
    d.Extends P (d.report offset problem) := ⟨rfl, .refl _⟩

theorem foldl {α : Type} {f : Draft → α → Draft} {xs : List α}
    (hf : ∀ (d : Draft), ∀ x ∈ xs, d.Extends P (f d x)) (d : Draft) :
    d.Extends P (xs.foldl f d) := by
  induction xs generalizing d with
  | nil => exact refl d
  | cons x xs ih =>
    have hrest := ih fun d y hy => hf d y (List.mem_cons_of_mem x hy)
    exact (hf d x List.mem_cons_self).trans (hrest (f d x))

/-- What is listed in a draft that began with nothing was allowed at its time. -/
theorem exists_allowed (h : (ofText text).Extends P e) (hs : e.edits.hasSpan span = true) :
    ∃ es, P es span := by
  rcases h.edits.hasSpan_cases hs with hnone | ⟨es, -, hP⟩
  · exact absurd hnone Bool.false_ne_true
  · exact ⟨es, hP⟩

end Extends

theorem text_replace (d : Draft) (span : Span) (text : String) :
    (d.replace span text).text = d.text :=
  (Extends.replace (P := Edits.anySpan) text trivial).text

theorem edits_replace (d : Draft) (span : Span) (text : String) : (d.replace span text).edits =
    if slice? d.text.toList span = some text.toList then d.edits else d.edits.queue span text := by
  rw [replace]
  split
  · rfl
  · rfl

/-! ### Rows of replacements -/

theorem foldl_queue (d : Draft) (changes : List Edit) :
    changes.foldl (fun d c => d.queue c.span c.text) d =
      { d with edits := d.edits.queueAll changes } := by
  induction changes generalizing d with
  | nil => rfl
  | cons c cs ih => exact ih (d.queue c.span c.text)

/-- What is recorded where a replacement is refused because of those queued already. -/
def refusal (d : Draft) (c : Edit) : Conflict := ⟨c.span, c.text, d.edits.firstOverlap? c.span⟩

def warning (d : Draft) (c : Conflict) : Diagnostic :=
  (Problem.conflict c.message).locate d.text c.span.start

theorem foldl_conflict (d : Draft) (changes : List Edit) :
    changes.foldl (fun d c => d.conflict c.span c.text) d =
      { d with
        diagnostics := d.diagnostics ++ changes.map fun c => d.warning (d.refusal c)
        conflicts := d.conflicts ++ changes.map d.refusal } := by
  induction changes generalizing d with
  | nil => simp
  | cons c cs ih =>
    -- recording a conflict changes neither the replacements nor the text
    have hrefusal : (d.conflict c.span c.text).refusal = d.refusal := rfl
    have hwarning : (d.conflict c.span c.text).warning = d.warning := rfl
    have hone : d.conflict c.span c.text = { d with
        diagnostics := d.diagnostics ++ [d.warning (d.refusal c)]
        conflicts := d.conflicts ++ [d.refusal c] } := rfl
    rw [List.foldl_cons, ih, hrefusal, hwarning, hone]
    simp

/-! ### Reports -/

/-- **The report of a draft** is its text with the replacements of the plan put in. -/
theorem spliced_of_result {r : Report} (h : d.result = .ok r) :
    Spliced 0 d.text.toList (d.edits.plan d.text.utf8ByteSize).applied r.text.toList := by
  rw [result] at h
  split at h
  · next text conflicts happly =>
    obtain rfl := Except.ok.inj h
    obtain ⟨result, hresult, hpair⟩ := Option.bind_eq_some_iff.1 happly
    obtain ⟨rfl, rfl⟩ := Prod.mk.inj (Option.some.inj hpair)
    simpa using spliced_of_splice? (d.edits.standApart_plan _) (fun _ _ => Nat.zero_le _) hresult
  · simp at h

/-- **A draft has a report** if and only if what is taken begins and ends between characters. -/
theorem exists_result_iff (d : Draft) : (∃ r, d.result = .ok r) ↔
    ∀ e ∈ (d.edits.plan d.text.utf8ByteSize).applied,
      Cut d.text.toList e.span.start ∧ Cut d.text.toList e.span.stop := by
  constructor
  · rintro ⟨r, hr⟩
    have hnil : byteLength [] = 0 := rfl
    exact (spliced_of_result hr).cut hnil
  · intro hcut
    obtain ⟨text, happly, -⟩ := d.edits.exists_applyTo? d.text hcut
    rw [result, happly]
    exact ⟨_, rfl⟩

/-- Where the replacements stand apart and begin and end between characters, all of them are put
in and nothing is refused. -/
theorem result_of_standApart (hapart : StandApart d.edits.toList)
    (hcut : ∀ e ∈ d.edits.toList, Cut d.text.toList e.span.start ∧ Cut d.text.toList e.span.stop) :
    ∃ text, d.result = .ok ⟨text, d.diagnostics, d.conflicts⟩ ∧
      Spliced 0 d.text.toList d.edits.toList text.toList := by
  have hplan : d.edits.plan d.text.utf8ByteSize = ⟨d.edits.toList, []⟩ := by
    refine Edits.plan_of_standApart hapart fun e he => ?_
    have := (hcut e he).2.le
    rwa [byteLength_toList] at this
  obtain ⟨text, happly, hspliced⟩ := d.edits.exists_applyTo? d.text (by rwa [hplan])
  rw [hplan] at happly hspliced
  refine ⟨text, ?_, hspliced⟩
  rw [result, happly]
  rfl

theorem result_ofText (text : String) : (ofText text).result = .ok ⟨text, [], []⟩ := by
  have happly : Edits.empty.applyTo? text = some (text, []) := by
    show some (String.ofList text.toList, []) = some (text, [])
    rw [String.ofList_toList]
  rw [result, ofText, happly]
  rfl

end Draft

end SourceRename
