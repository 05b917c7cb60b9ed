import SourceRename.Proofs.Rename.Passes
import SourceRename.Proofs.Template.Instantiate

/-!
# What becomes of a match

The changes of a match are offered together, and one of three things should come of it: all are
queued (`Draft.Takes`), or some are refused and every one of them leaves a conflict and a warning
(`Draft.Refuses`), or they are known, as each span is listed with just the text offered
(`Draft.Knows`).

There is a fourth case.  Whether changes are known is decided by their spans alone, so a match whose
spans are all listed is passed over even if other texts are listed for them, and nothing tells of
it. `Template.match_accounted_iff` says that this is the only way in which a match gets lost.  Two
templates for one expression are enough (`Template.product_lost`). -/

namespace SourceRename

namespace Draft

variable {d e : Draft} {changes : List Edit}

/-! ### Outcomes -/

def refusals (d : Draft) (changes : List Edit) : List Conflict :=
  (changes.filter fun c => !d.isFree c.span).map d.refusal

/-- All of the changes are free, and queueing them is all that happens. -/
structure Takes (d : Draft) (changes : List Edit) (e : Draft) : Prop where
  free : ∀ c ∈ changes, d.isFree c.span = true
  edits : e.edits = d.edits.queueAll changes
  conflicts : e.conflicts = d.conflicts
  diagnostics : e.diagnostics = d.diagnostics

/-- Nothing is queued.  Of the changes at least one is refused, and each of those that are leaves a
conflict and a warning. -/
structure Refuses (d : Draft) (changes : List Edit) (e : Draft) : Prop where
  some_refused : d.refusals changes ≠ []
  edits : e.edits = d.edits
  conflicts : e.conflicts = d.conflicts ++ d.refusals changes
  diagnostics : e.diagnostics = d.diagnostics ++ (d.refusals changes).map d.warning

/-- Nothing happens, as all of the changes are listed with their texts. -/
structure Knows (d : Draft) (changes : List Edit) (e : Draft) : Prop where
  same : e = d
  listed : ∀ c ∈ changes, d.edits.textAt? c.span = some c.text

theorem refusals_eq_nil_iff :
    d.refusals changes = [] ↔ ∀ c ∈ changes, d.isFree c.span = true := by
  simp [refusals, List.filter_eq_nil_iff]

/-- **What offering changes does**, by what is free and what is listed. -/
theorem offer_outcome (d : Draft) (changes : List Edit) :
    d.Takes changes (d.offer changes) ∨ d.Refuses changes (d.offer changes) ∨
      (¬ ∀ c ∈ changes, d.isFree c.span = true) ∧
        (∀ c ∈ changes, d.edits.hasSpan c.span = true) ∧ d.offer changes = d := by
  rw [offer]
  split
  · next hfree =>
    rw [foldl_queue]
    exact .inl ⟨List.all_eq_true.1 hfree, rfl, rfl, rfl⟩
  · next hfree =>
    have hnot : ¬ ∀ c ∈ changes, d.isFree c.span = true := fun h => hfree (List.all_eq_true.2 h)
    split
    · next hlisted => exact .inr (.inr ⟨hnot, List.all_eq_true.1 hlisted, rfl⟩)
    · have hsome : d.refusals changes ≠ [] := fun h => hnot (refusals_eq_nil_iff.1 h)
      rw [foldl_conflict]
      refine .inr (.inl ⟨hsome, rfl, rfl, ?_⟩)
      rw [refusals, List.map_map]
      rfl

/-- Changes are accounted for, unless all of their spans are listed, some are not free, and other
texts are listed for some. -/
theorem offer_accounted_iff (d : Draft) (changes : List Edit) :
    (d.Takes changes (d.offer changes) ∨ d.Refuses changes (d.offer changes) ∨
        d.Knows changes (d.offer changes)) ↔
      ((∀ c ∈ changes, d.edits.hasSpan c.span = true) →
        (∀ c ∈ changes, d.isFree c.span = true) ∨
          ∀ c ∈ changes, d.edits.textAt? c.span = some c.text) := by
  constructor
  · intro haccounted hlisted
    rcases haccounted with htakes | hrefuses | hknows
    · exact .inl htakes.free
    · -- where all spans are listed, nothing is refused
      by_cases hfree : ∀ c ∈ changes, d.isFree c.span = true
      · exact .inl hfree
      · have hsame : d.offer changes = d := by
          rw [offer, if_neg fun h => hfree (List.all_eq_true.1 h),
            if_pos (List.all_eq_true.2 hlisted)]
        have hconflicts := hrefuses.conflicts
        rw [hsame, List.self_eq_append_right] at hconflicts
        exact absurd hconflicts hrefuses.some_refused
    · exact .inr hknows.listed
  · intro h
    rcases d.offer_outcome changes with htakes | hrefuses | ⟨hnot, hlisted, hsame⟩
    · exact .inl htakes
    · exact .inr (.inl hrefuses)
    · rcases h hlisted with hfree | htexts
      · exact absurd hfree hnot
      · exact .inr (.inr ⟨hsame, htexts⟩)

/-! ### What is recorded stays recorded -/

/-- The second draft has the conflicts and problems of the first one, and perhaps more. -/
def Recalls (d e : Draft) : Prop :=
  d.conflicts <+: e.conflicts ∧ d.diagnostics <+: e.diagnostics

theorem recalls_offer (d : Draft) (changes : List Edit) : d.Recalls (d.offer changes) := by
  rcases d.offer_outcome changes with htakes | hrefuses | ⟨-, -, hsame⟩
  · rw [Recalls, htakes.conflicts, htakes.diagnostics]
    exact ⟨List.prefix_rfl, List.prefix_rfl⟩
  · rw [Recalls, hrefuses.conflicts, hrefuses.diagnostics]
    exact ⟨List.prefix_append _ _, List.prefix_append _ _⟩
  · rw [hsame]
    exact ⟨List.prefix_rfl, List.prefix_rfl⟩

theorem recalls_offerMatch (found : List (Template × Match)) (d : Draft) :
    d.Recalls (found.foldl offerMatch d) := by
  induction found generalizing d with
  | nil => exact ⟨List.prefix_rfl, List.prefix_rfl⟩
  | cons x xs ih =>
    obtain ⟨hconflicts, hdiagnostics⟩ := d.recalls_offer (x.1.changes x.2)
    obtain ⟨hconflicts', hdiagnostics'⟩ := ih (d.offerMatch x)
    exact ⟨hconflicts.trans hconflicts', hdiagnostics.trans hdiagnostics'⟩

end Draft

namespace Template

/-- **When a match is accounted for.**  Whatever has been gathered for a file, each match that is
found in it is either taken as a whole, or refused with a conflict and a warning for each change in
the way, or known already, if and only if it is not the case that all of its spans are listed, one
of them is not free, and another text is listed for one of them.  In that case the match is lost:
the draft stays as it is.  What is recorded for a match is recorded when all templates have been
applied. -/
theorem match_accounted_iff {templates : List Template} {file : SourceFile} {t : Template}
    {m : Match} {before behind : List (Template × Match)} (d : Draft)
    (hfound : found templates file = before ++ (t, m) :: behind) :
    let start := before.foldl Draft.offerMatch d
    let next := start.offerMatch (t, m)
    let changes := t.changes m
    (start.Takes changes next ∨ start.Refuses changes next ∨ start.Knows changes next ↔
      ((∀ c ∈ changes, start.edits.hasSpan c.span = true) →
        (∀ c ∈ changes, start.isFree c.span = true) ∨
          ∀ c ∈ changes, start.edits.textAt? c.span = some c.text)) ∧
      (¬ (start.Takes changes next ∨ start.Refuses changes next ∨ start.Knows changes next) →
        next = start) ∧
      applyAll templates file d =
        (if intact templates file then .ok (behind.foldl Draft.offerMatch next) else .error .badCut) ∧
      next.Recalls (behind.foldl Draft.offerMatch next) := by
  intro start next changes
  have happly : offerAll templates file d = behind.foldl Draft.offerMatch next := by
    rw [offerAll, hfound, List.foldl_append, List.foldl_cons]
  refine ⟨start.offer_accounted_iff changes, fun hlost => ?_, happly ▸ applyAll_eq templates file d,
    Draft.recalls_offerMatch behind next⟩
  rcases start.offer_outcome changes with htakes | hrefuses | ⟨-, -, hsame⟩
  · exact absurd (.inl htakes) hlost
  · exact absurd (.inr (.inl hrefuses)) hlost
  · exact hsame

/-! ### Two templates for one expression -/

/-- The templates that turn `x - y` into `x + y` and into `x * y`. -/
def rivals : List Template := [differenceTemplate ["", "+", ""], differenceTemplate ["", "*", ""]]

theorem found_rivals : found rivals differenceOfNames =
    [(differenceTemplate ["", "+", ""], differenceMatch),
      (differenceTemplate ["", "*", ""], differenceMatch)] := by
  have hdifference : ∀ t ∈ rivals, ∃ replacement, t = differenceTemplate replacement := by
    simp [rivals]
  refine found_of_once (differenceOfNames.sites.take 7) differenceSite
    (differenceOfNames.sites.drop 8) rfl (fun s hs t ht => ?_) (fun t ht => ?_)
    (fun s hs t ht => .inl ?_)
  · obtain ⟨replacement, rfl⟩ := hdifference t ht
    have hkind : Kind.binaryExpr ≠ s.kind := by
      revert s
      decide
    exact find?_eq_none_of_kind rfl hkind
  · obtain ⟨replacement, rfl⟩ := hdifference t ht
    exact find?_difference .empty replacement
  · have hcovers : ∀ s ∈ differenceOfNames.sites.drop 8,
        s.ancestors.any (·.key == differenceSite.key) = true := by
      decide
    exact hcovers s hs

theorem changes_sum : (differenceTemplate ["", "+", ""]).changes differenceMatch =
    [⟨⟨27, 28, by decide⟩, "+"⟩] := by
  rw [changes_difference _ rfl]
  decide

theorem changes_product : (differenceTemplate ["", "*", ""]).changes differenceMatch =
    [⟨⟨27, 28, by decide⟩, "*"⟩] := by
  rw [changes_difference _ rfl]
  decide

/-- The first of the two matches is taken. -/
theorem sum_accounted :
    let start := Draft.ofText differenceOfNames.text
    let sum := (differenceTemplate ["", "+", ""], differenceMatch)
    found rivals differenceOfNames =
      [] ++ sum :: [(differenceTemplate ["", "*", ""], differenceMatch)] ∧
    (start.Takes (sum.1.changes sum.2) (start.offerMatch sum) ∨
      start.Refuses (sum.1.changes sum.2) (start.offerMatch sum) ∨
      start.Knows (sum.1.changes sum.2) (start.offerMatch sum)) := by
  intro start sum
  have hfound : found rivals differenceOfNames =
      [] ++ sum :: [(differenceTemplate ["", "*", ""], differenceMatch)] := found_rivals
  refine ⟨hfound, (match_accounted_iff start hfound).1.2 fun _ => .inl ?_⟩
  rw [show sum.1.changes sum.2 = _ from changes_sum]
  decide

def rivalsRun : Run where
  renames := .empty
  templates := rivals
  settings := {}

/-- **A lost match.**  When the product is offered, its span is listed for the sum.  The match is
found, but neither queued nor refused nor known, and the report is that of the sum alone. -/
theorem product_lost :
    let start := [(differenceTemplate ["", "+", ""], differenceMatch)].foldl Draft.offerMatch
      (.ofText differenceOfNames.text)
    let product := (differenceTemplate ["", "*", ""], differenceMatch)
    found rivals differenceOfNames =
      [(differenceTemplate ["", "+", ""], differenceMatch)] ++ product :: [] ∧
    product.1.changes product.2 = [⟨⟨27, 28, by decide⟩, "*"⟩] ∧
    start.edits.textAt? ⟨27, 28, by decide⟩ = some "+" ∧
    ¬ (start.Takes (product.1.changes product.2) (start.offerMatch product) ∨
      start.Refuses (product.1.changes product.2) (start.offerMatch product) ∨
      start.Knows (product.1.changes product.2) (start.offerMatch product)) ∧
    rivalsRun.report differenceOfNames =
      .ok ⟨"int m(int x,int y)\x7breturn a+b;\x7d", [], []⟩ := by
  intro start product
  have hstart : start = (Draft.ofText differenceOfNames.text).offer
      [⟨⟨27, 28, by decide⟩, "+"⟩] := by
    rw [← changes_sum]
    rfl
  have hchanges : product.1.changes product.2 = [⟨⟨27, 28, by decide⟩, "*"⟩] := changes_product
  refine ⟨found_rivals, hchanges, ?_, ?_, ?_⟩
  · rw [hstart]
    decide
  · rw [Draft.offerMatch, Draft.offer_accounted_iff, hchanges, hstart]
    decide
  · have hintact : intact rivals differenceOfNames = true :=
      intact_of_fixed ⟨_, rfl, by decide +kernel⟩ (by decide)
    have hreport : rivalsRun.report differenceOfNames =
        (Context.ofFile differenceOfNames .empty true).result (start.offerMatch product) := by
      rw [Run.report_of_intact hintact]
      show Context.result _ (offerAll rivals differenceOfNames _) = _
      rw [offerAll, found_rivals]
      rfl
    rw [hreport, Draft.offerMatch, hchanges, hstart]
    decide +kernel

end Template

end SourceRename
