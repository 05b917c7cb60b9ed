import SourceRename.Proofs.Rename.Walk

/-!
# Matches in the text returned

The changes of a match are offered together: one of them that is not free keeps all of them out.
The plan does not know of matches, though, and takes or refuses each replacement by itself.  So a
match whose changes have been queued is there as a whole, or not at all, if and only if its changes
are all clear of what is taken behind them, or none of them is (`Run.match_taken_iff`).

In a Java file without mixin classes only free spans are queued, so a change can only be refused
because of an empty span that pierces it.  This happens: a later match may insert text after a name
that an earlier one has replaced together with the sign behind it (`Run.less_half_taken`).
-/

namespace SourceRename

/-- The replacement is among those listed, perhaps with other texts for its span. -/
def Edit.TakenIn (c : Edit) (es : List Edit) : Prop :=
  ∃ x ∈ es, x.span = c.span ∧ c.text.toList <:+: x.text.toList

instance (c : Edit) (es : List Edit) : Decidable (c.TakenIn es) :=
  inferInstanceAs (Decidable (∃ x ∈ es, x.span = c.span ∧ c.text.toList <:+: x.text.toList))

/-- The replacement ends inside the text and in front of all that is listed behind it. -/
def Edit.ClearIn (c : Edit) (length : Nat) (es : List Edit) : Prop :=
  c.span.stop ≤ length ∧ ∀ f ∈ es, c.span.precedes f.span = true → c.span.stop ≤ f.span.start

/-! ### What is queued and what is taken -/

section

variable {es : Edits} {c : Edit} {length : Nat}

/-- **A listed replacement is taken** if and only if it is clear of all that is taken. -/
theorem Edits.takenIn_applied_iff (hc : c.TakenIn es.toList) :
    c.TakenIn (es.plan length).applied ↔ c.ClearIn length (es.plan length).applied := by
  constructor
  · rintro ⟨x, hx, hspan, -⟩
    have hclear := (mem_applied_iff (mem_of_mem_applied hx)).1 hx
    rwa [hspan] at hclear
  · intro hclear
    obtain ⟨x, hx, hspan, htext⟩ := hc
    exact ⟨x, (mem_applied_iff hx).2 (hspan ▸ hclear), hspan, htext⟩

/-- Where no two spans share a byte, only empty spans are in the way. -/
theorem Edits.clearIn_iff_of_separate (h : es.Separate) (hc : c.TakenIn es.toList) :
    c.ClearIn length (es.plan length).applied ↔
      c.span.stop ≤ length ∧ ∀ z ∈ es.toList, z.span.pierces c.span = false := by
  obtain ⟨x, hx, hspan, -⟩ := hc
  have hclear : x ∈ (es.plan length).applied ↔ x.ClearIn length (es.plan length).applied :=
    mem_applied_iff hx
  have hpierced := hclear.symm.trans (mem_applied_iff_of_separate h hx)
  rwa [Edit.ClearIn, hspan] at hpierced

theorem Draft.takenIn_of_extends {P : Edits → Span → Prop} {changes : List Edit} {d e : Draft}
    (hc : c ∈ changes)
    (h : (changes.foldl (fun d e => d.queue e.span e.text) d).Extends P e) :
    c.TakenIn e.edits.toList := by
  obtain ⟨before, behind, rfl⟩ := List.append_of_mem hc
  rw [List.foldl_append, List.foldl_cons] at h
  have hbehind : Extends Edits.anySpan
      ((before.foldl (fun d e => d.queue e.span e.text) d).queue c.span c.text)
      (behind.foldl (fun d e => d.queue e.span e.text)
        ((before.foldl (fun d e => d.queue e.span e.text) d).queue c.span c.text)) :=
    .foldl (fun _ f _ => .queue f.text trivial) _
  exact (hbehind.trans (h.mono fun _ _ _ => trivial)).edits.exists_listed

end

theorem Context.separate_renameAll {cx : Context} {d : Draft} (hjava : cx.file.language = .java)
    (hmixins : ∀ s ∈ cx.file.sites, s.kind = .classDecl →
      ∀ use ∈ s.annotations, cx.file.denotes use Mixin.mixin = false)
    (hd : d.edits.Separate) : (cx.renameAll d).edits.Separate := by
  rw [renameAll_eq_renameJava hjava hmixins]
  exact separate_renameJava (SourceFile.isKotlin_of_java hjava) hd

/-! ### Runs -/

namespace Run

variable {run : Run} {file : SourceFile} {t : Template} {m : Match}
  {before behind : List (Template × Match)}

def applied (run : Run) (file : SourceFile) : List Edit :=
  ((run.draft file).edits.plan file.text.utf8ByteSize).applied

/-- **When a match is all or nothing.**  There is a report if the templates cut no text inside a
character and what is taken can be cut out, and the text returned is that of the file with just that
put in which is taken.  Of a match of which some change is not free when it is offered, nothing is
queued. Of any other match all changes are listed in the end, and each of them is taken if and only
if it is clear of what is taken.  So all are taken or none is, if and only if all are clear or none
is. In a Java file without mixin classes those are clear that end inside the text and are not
pierced by an empty span. -/
theorem match_taken_iff
    (hfound : Template.found run.templates file = before ++ (t, m) :: behind) :
    let d := before.foldl Draft.offerMatch (.ofText file.text)
    let length := file.text.utf8ByteSize
    let listed := (run.draft file).edits.toList
    let applied := run.applied file
    (t ∈ run.templates ∧ ∃ site ∈ file.sites, t.find? file site = some m) ∧
      ((∃ r, run.report file = .ok r) ↔
        (∃ d, Template.applyAll run.templates file (.ofText file.text) = .ok d) ∧
          ∀ x ∈ applied,
            Cut file.text.toList x.span.start ∧ Cut file.text.toList x.span.stop) ∧
      (∀ r, run.report file = .ok r → Spliced 0 file.text.toList applied r.text.toList) ∧
      (¬ (∀ c ∈ t.changes m, d.isFree c.span = true) → (d.offerMatch (t, m)).edits = d.edits) ∧
      ((∀ c ∈ t.changes m, d.isFree c.span = true) →
        (∀ c ∈ t.changes m, c.TakenIn listed) ∧
        (∀ c ∈ t.changes m, c.TakenIn applied ↔ c.ClearIn length applied) ∧
        ((∀ c ∈ t.changes m, c.TakenIn applied) ∨ (∀ c ∈ t.changes m, ¬ c.TakenIn applied) ↔
          (∀ c ∈ t.changes m, c.ClearIn length applied) ∨
            ∀ c ∈ t.changes m, ¬ c.ClearIn length applied) ∧
        (file.language = .java →
          (∀ s ∈ file.sites, s.kind = .classDecl →
            ∀ use ∈ s.annotations, file.denotes use Mixin.mixin = false) →
          ∀ c ∈ t.changes m, c.ClearIn length applied ↔
            c.span.stop ≤ length ∧ ∀ z ∈ listed, z.span.pierces c.span = false)) := by
  intro d length listed applied
  have hmem : (t, m) ∈ Template.found run.templates file := by
    rw [hfound]
    exact List.mem_append_right before List.mem_cons_self
  have hoffered : Template.offerAll run.templates file (.ofText file.text) =
      behind.foldl Draft.offerMatch (d.offerMatch (t, m)) := by
    rw [Template.offerAll, hfound, List.foldl_append, List.foldl_cons]
  refine ⟨Template.mem_found hmem, exists_report_iff, fun r hr => spliced_of_report hr, ?_, ?_⟩
  · intro hnot
    rcases d.offer_cases (t.changes m) with ⟨hfree, -⟩ | ⟨-, hedits, -⟩
    · exact absurd hfree hnot
    · exact hedits
  · intro hfree
    have hqueued : d.offerMatch (t, m) =
        (t.changes m).foldl (fun d e => d.queue e.span e.text) d := by
      rcases d.offer_cases (t.changes m) with ⟨-, heq⟩ | ⟨hnot, -⟩
      · exact heq
      · exact absurd hfree hnot
    have hlater : (d.offerMatch (t, m)).Extends Edits.anySpan (run.draft file) := by
      rw [draft, hoffered]
      have hbehind := Draft.extends_offerMatch behind (d.offerMatch (t, m))
      exact (hbehind.mono fun _ _ _ => trivial).trans
        ((Context.extends_renameAll _ _).mono fun _ _ _ => trivial)
    have hlisted : ∀ c ∈ t.changes m, c.TakenIn listed := by
      intro c hc
      exact Draft.takenIn_of_extends hc (hqueued ▸ hlater)
    have htaken : ∀ c ∈ t.changes m, c.TakenIn applied ↔ c.ClearIn length applied := by
      intro c hc
      exact Edits.takenIn_applied_iff (hlisted c hc)
    refine ⟨hlisted, htaken, ?_, ?_⟩
    · exact or_congr (forall₂_congr htaken) (forall₂_congr fun c hc => not_congr (htaken c hc))
    · intro hjava hmixins c hc
      have hstart := Template.extends_offerAll run.templates file (.ofText file.text)
      have hseparate := hstart.edits.separate (fun _ _ h => h) Edits.separate_empty
      refine Edits.clearIn_iff_of_separate ?_ (hlisted c hc)
      exact Context.separate_renameAll hjava hmixins hseparate

/-! ### A comparison -/

open Template

/-- The file that returns `a < b`, where `a` is an `Integer` and `b` is a `long`. -/
def comparing : SourceFile := { fileReturning [] (operation "a" (.token .lt "<") "b") with
  types := .ofList [((.binaryExpr, .ofWidth 26 3), .primitive .boolean),
    ((.referenceExpr, .ofWidth 26 1), .classType "java.lang.Integer"),
    ((.referenceExpr, .ofWidth 28 1), .primitive .long)] }

/-- The template that turns `a < y` into `a <= y - 1`. -/
def lessTemplate : Template := ⟨"less", [⟨"y", some (.primitive .long)⟩], false,
  operation "a" (.token .lt "<") "y", .empty, ["a<=", "-1"]⟩

def lessMatch : Match := ⟨.ofWidth 26 3, [⟨0, .ofWidth 28 1, .single⟩]⟩

def lessSite : Site := (comparing.sites.find? (·.kind == .binaryExpr)).getD comparing.root

theorem find?_less : lessTemplate.find? comparing lessSite = some lessMatch := by
  have hcollect : lessTemplate.collect comparing [] lessTemplate.root lessSite =
      some lessMatch.captures := by
    rw [collect_of_align rfl rfl]
    simp only [List.singleton_append, List.mapM_cons, List.mapM_nil]
    rw [collect_of_align rfl rfl, collect_of_hole rfl]
    decide +kernel
  rw [find?_eq, hcollect]
  rfl

theorem find?_less_eq_none {s : Site} (h : s.kind ≠ .binaryExpr) :
    lessTemplate.find? comparing s = none :=
  find?_eq_none_of_kind rfl (Ne.symm h)

theorem changes_less : lessTemplate.changes lessMatch =
    [⟨⟨26, 28, by decide⟩, "a<="⟩, ⟨⟨29, 29, by decide⟩, "-1"⟩] := by
  have hsorted : lessMatch.captures.mergeSort comesBefore = lessMatch.captures :=
    List.mergeSort_singleton _
  rw [changes, hsorted]
  decide

theorem lossless_comparing : comparing.Lossless := ⟨_, rfl, by decide +kernel⟩

def lessRun : Run where
  renames := .empty
  templates := [lessTemplate]
  settings := {}

theorem found_less : found lessRun.templates comparing = [(lessTemplate, lessMatch)] := by
  refine found_of_once (comparing.sites.take 7) lessSite (comparing.sites.drop 8) rfl
    (fun s hs => List.forall_mem_singleton.2 (find?_less_eq_none ?_))
    (List.forall_mem_singleton.2 find?_less)
    (fun s hs => List.forall_mem_singleton.2 (.inr (find?_less_eq_none ?_)))
  · revert s
    decide
  · revert s
    decide

theorem draft_less : lessRun.draft comparing = (Context.ofFile comparing .empty true).renameAll
    ((Draft.ofText comparing.text).offer [⟨⟨26, 28, by decide⟩, "a<="⟩,
      ⟨⟨29, 29, by decide⟩, "-1"⟩]) := by
  rw [draft, offerAll, found_less, ← changes_less]
  rfl

/-- Both changes of the comparison are taken, as nothing pierces them. -/
theorem less_taken :
    found lessRun.templates comparing = [] ++ (lessTemplate, lessMatch) :: [] ∧
    lessTemplate.changes lessMatch =
      [⟨⟨26, 28, by decide⟩, "a<="⟩, ⟨⟨29, 29, by decide⟩, "-1"⟩] ∧
    (∀ c ∈ lessTemplate.changes lessMatch, c.TakenIn (lessRun.applied comparing)) ∧
    lessRun.report comparing =
      .ok ⟨"int m(int x,int y)\x7breturn a<=b-1;\x7d", [], []⟩ := by
  have hlisted : (lessRun.draft comparing).edits.toList =
      [⟨⟨26, 28, by decide⟩, "a<="⟩, ⟨⟨29, 29, by decide⟩, "-1"⟩] := by
    rw [draft_less]
    decide +kernel
  have hfound : found lessRun.templates comparing = [] ++ (lessTemplate, lessMatch) :: [] :=
    found_less
  have hmixins : ∀ s ∈ comparing.sites, s.kind = .classDecl →
      ∀ use ∈ s.annotations, comparing.denotes use Mixin.mixin = false := by
    intro s hs hkind
    have hnone : ∀ s ∈ comparing.sites, s.kind ≠ .classDecl := by decide
    exact absurd hkind (hnone s hs)
  refine ⟨hfound, changes_less, ?_, ?_⟩
  · obtain ⟨-, -, -, -, hqueued⟩ := match_taken_iff hfound
    rw [changes_less, hlisted] at hqueued
    obtain ⟨-, htaken, -, hclear⟩ := hqueued (by decide)
    rw [changes_less]
    intro c hc
    refine (htaken c hc).2 ((hclear rfl hmixins c hc).2 ?_)
    revert c
    decide +kernel
  · rw [report_of_intact (intact_of_fixed lossless_comparing (by decide)), draft_less]
    decide +kernel

/-! ### A comparison and its operand -/

/-- The template that turns `x` into `x.intValue()`. -/
def valueTemplate : Template := ⟨"value", [⟨"x", some (.classType "java.lang.Integer")⟩], false,
  loneName "x", .empty, ["", ".intValue()"]⟩

def comparingRun : Run where
  renames := .empty
  templates := [lessTemplate, valueTemplate]
  settings := {}

def valueMatch : Match := ⟨.ofWidth 26 1, [⟨0, .ofWidth 26 1, .single⟩]⟩

def leftSite : Site := (comparing.sites.find? (·.kind == .referenceExpr)).getD comparing.root

theorem found_comparing : found comparingRun.templates comparing =
    [(lessTemplate, lessMatch), (valueTemplate, valueMatch)] := by
  have hsites : comparing.sites =
      comparing.sites.take 7 ++ lessSite :: leftSite :: comparing.sites.drop 9 := rfl
  have hless : ∀ s ∈ comparing.sites.take 7 ++ leftSite :: comparing.sites.drop 9,
      lessTemplate.find? comparing s = none := by
    intro s hs
    refine find?_less_eq_none ?_
    revert s
    decide
  have hvalue : ∀ s ∈ comparing.sites.take 7 ++ lessSite :: comparing.sites.drop 9,
      valueTemplate.find? comparing s = none := by
    intro s hs
    rw [find?_of_hole rfl, Option.map_eq_none_iff]
    revert s
    decide +kernel
  have hleft : valueTemplate.find? comparing leftSite = some valueMatch := by
    have hcapture : valueTemplate.capture? comparing [] 0 leftSite =
        some ⟨0, .ofWidth 26 1, .single⟩ := by
      decide +kernel
    rw [find?_of_hole rfl, hcapture]
    rfl
  have hbefore : ∀ s ∈ comparing.sites.take 7,
      ∀ search ∈ [Search.mk lessTemplate none, Search.mk valueTemplate none],
        search.hit? comparing s = none := by
    intro s hs
    have hmem : ∀ rest, s ∈ comparing.sites.take 7 ++ rest := fun _ => List.mem_append_left _ hs
    simpa [Search.hit?_fresh] using And.intro (hless s (hmem _)) (hvalue s (hmem _))
  have hcovered : (Search.mk lessTemplate (some lessSite.toPlace)).hit? comparing leftSite = none :=
    Search.hit?_eq_none (hless _ (by simp))
  have hbehind : Search.foundFrom comparing [⟨lessTemplate, some lessSite.toPlace⟩,
      ⟨valueTemplate, some leftSite.toPlace⟩] (comparing.sites.drop 9) = [] := by
    apply Search.foundFrom_eq_nil
    intro s hs
    have hmem : ∀ first x, s ∈ first ++ x :: comparing.sites.drop 9 := by simp [hs]
    simpa using And.intro (Search.hit?_eq_none (hless s (hmem _ _)))
      (Search.hit?_eq_none (hvalue s (hmem _ _)))
  rw [found, hsites]
  refine (Search.foundFrom_append_of_none hbefore).trans ?_
  simp [Search.foundFrom, Search.hits, Search.advance, Search.hit?_fresh, find?_less, hcovered,
    hleft, hbehind, hvalue lessSite]

theorem changes_value : valueTemplate.changes valueMatch =
    [⟨⟨27, 27, by decide⟩, ".intValue()"⟩] := by
  have hsorted : valueMatch.captures.mergeSort comesBefore = valueMatch.captures :=
    List.mergeSort_singleton _
  rw [changes, hsorted]
  decide

/-- All three changes are queued, as each was free at its time. -/
theorem draft_comparing : comparingRun.draft comparing =
    (Context.ofFile comparing .empty true).renameAll
      (((Draft.ofText comparing.text).offer [⟨⟨26, 28, by decide⟩, "a<="⟩,
        ⟨⟨29, 29, by decide⟩, "-1"⟩]).offer [⟨⟨27, 27, by decide⟩, ".intValue()"⟩]) := by
  rw [draft, offerAll, found_comparing, ← changes_less, ← changes_value]
  rfl

theorem applied_comparing : comparingRun.applied comparing =
    [⟨⟨27, 27, by decide⟩, ".intValue()"⟩, ⟨⟨29, 29, by decide⟩, "-1"⟩] := by
  rw [applied, draft_comparing]
  decide +kernel

/-- **Half a match.**  The changes of the comparison are free and queued, but the text inserted
behind its operand keeps the first of them out, while the second one is taken. -/
theorem less_half_taken :
    found comparingRun.templates comparing =
      [] ++ (lessTemplate, lessMatch) :: [(valueTemplate, valueMatch)] ∧
    (∀ c ∈ lessTemplate.changes lessMatch, (Draft.ofText comparing.text).isFree c.span = true) ∧
    comparingRun.report comparing = .ok ⟨"int m(int x,int y)\x7breturn a.intValue()<b-1;\x7d",
      [⟨⟨0, 26⟩, .warning, some "W0001",
        "Conflicting edit \"a<=\" at 26..28 overlaps Some(27..27)"⟩],
      [⟨⟨26, 28, by decide⟩, "a<=", some (.empty 27)⟩]⟩ ∧
    ¬ ((∀ c ∈ lessTemplate.changes lessMatch, c.TakenIn (comparingRun.applied comparing)) ∨
      ∀ c ∈ lessTemplate.changes lessMatch, ¬ c.TakenIn (comparingRun.applied comparing)) := by
  have hreport : comparingRun.report comparing = (comparingRun.draft comparing).result :=
    report_of_intact (intact_of_fixed lossless_comparing (by decide))
  rw [changes_less, applied_comparing, hreport, draft_comparing]
  exact ⟨found_comparing, by decide, by decide +kernel, by decide⟩

end Run

end SourceRename
