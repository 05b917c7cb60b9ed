import SourceRename.Proofs.Edit.Order
import SourceRename.Proofs.Template.Outermost

/-!
# Templates given twice

Where a list of templates is applied together with a second copy of itself, the copies match where
the originals do, and their changes are offered right behind those of the originals, node by node.
What becomes of them depends on one thing.  A match with a change that replaces something leaves a
span that is not free, so its copy queues nothing, be it known or refused.  A match that only
inserts leaves empty spans, and these are always free: its copy is queued again
(`Edits.offered_again`).

So what is queued is the same for one copy and for two if and only if no match only inserts
(`Template.applyAll_twice`).  In any case the same spans are listed, and the texts for them are
longer by what these matches insert.  A template that puts parentheses around an expression puts two
pairs around it (`Template.parenthesized_twice`).
-/

namespace SourceRename

namespace Edits

variable {es fs : Edits} {s : Span} {changes more extra : List Edit} {row : List (List Edit)}

/-! ### Offering changes again -/

theorem grows_anySpan_queueAll (es : Edits) (calls : List Edit) :
    Grows anySpan es (es.queueAll calls) := by
  induction calls generalizing es with
  | nil => exact .refl es
  | cons c cs ih => exact (Grows.queue c.text (.refl es) trivial).trans (ih _)

def offered (es : Edits) (changes : List Edit) : Edits :=
  if changes.all fun c => es.isFree c.span then es.queueAll changes else es

/-- The changes insert text and replace none. -/
def insertsOnly (changes : List Edit) : Bool := changes.all (·.span.isEmpty)

/-- Changes that queue nothing when they are offered, unless they only insert. -/
def Settled (es : Edits) (changes : List Edit) : Prop :=
  insertsOnly changes = true ∨ ∃ c ∈ changes, es.isFree c.span = false

theorem offered_of_insertsOnly (h : insertsOnly changes = true) :
    es.offered changes = es.queueAll changes := by
  refine if_pos (List.all_eq_true.2 ?_)
  intro c hc
  exact isFree_of_isEmpty (List.all_eq_true.1 h c hc)

theorem grows_offered (es : Edits) (changes : List Edit) :
    Grows anySpan es (es.offered changes) := by
  rw [offered]
  split
  · exact grows_anySpan_queueAll es changes
  · exact .refl es

theorem grows_foldl_offered (es : Edits) (row : List (List Edit)) :
    Grows anySpan es (row.foldl offered es) := by
  induction row generalizing es with
  | nil => exact .refl es
  | cons changes row ih => exact (grows_offered es changes).trans (ih _)

theorem Settled.grows {P : Edits → Span → Prop} (h : es.Settled changes) (hgrows : Grows P es fs) :
    fs.Settled changes := by
  refine h.imp_right ?_
  rintro ⟨c, hc, hblocked⟩
  refine ⟨c, hc, Bool.eq_false_iff.2 ?_⟩
  intro hfree
  rw [hgrows.isFree hfree] at hblocked
  exact Bool.noConfusion hblocked

/-- **What has been offered is settled**: if it was taken and a change replaces something, the span
of this change is not free any more, and if it was not taken, one of the spans is not free anyway.
-/
theorem settled_offered (es : Edits) (changes : List Edit) :
    (es.offered changes).Settled changes := by
  by_cases hinserts : insertsOnly changes = true
  · exact .inl hinserts
  · refine .inr ?_
    by_cases hfree : changes.all (fun c => es.isFree c.span) = true
    · obtain ⟨c, hc, hwide⟩ : ∃ c ∈ changes, c.span.isEmpty = false := by
        simpa [insertsOnly] using hinserts
      refine ⟨c, hc, Bool.eq_false_iff.2 ?_⟩
      intro hstill
      -- a span that is listed and free is empty
      have hlisted : (es.offered changes).hasSpan c.span = true := by
        rw [offered, if_pos hfree, hasSpan_queueAll_iff]
        exact .inl (List.mem_map_of_mem hc)
      have hempty : c.span.isEmpty = true :=
        beq_iff_eq.2 (eq_of_isFree_of_hasSpan hstill hlisted)
      rw [hempty] at hwide
      exact Bool.noConfusion hwide
    · rw [offered, if_neg hfree]
      simpa using hfree

theorem offered_of_settled (h : es.Settled changes) :
    es.offered changes = if insertsOnly changes then es.queueAll changes else es := by
  by_cases hinserts : insertsOnly changes = true
  · rw [if_pos hinserts, offered_of_insertsOnly hinserts]
  · obtain ⟨c, hc, hblocked⟩ := h.resolve_left hinserts
    rw [if_neg hinserts, offered, if_neg]
    intro hall
    rw [List.all_eq_true.1 hall c hc] at hblocked
    exact Bool.noConfusion hblocked

theorem foldl_offered_of_settled (h : ∀ changes ∈ row, es.Settled changes) :
    row.foldl offered es = es.queueAll (row.filter insertsOnly).flatten := by
  induction row generalizing es with
  | nil => rfl
  | cons changes row ih =>
    obtain ⟨hfirst, hrest⟩ := List.forall_mem_cons.1 h
    rw [List.foldl_cons, ih fun more hmore => (hrest more hmore).grows (grows_offered es changes),
      offered_of_settled hfirst]
    by_cases hinserts : insertsOnly changes = true
    · rw [if_pos hinserts, List.filter_cons_of_pos hinserts, List.flatten_cons, queueAll, queueAll,
        queueAll, List.foldl_append]
    · rw [if_neg hinserts, List.filter_cons_of_neg hinserts]

/-- **What is offered again**: of a row of changes those that only insert are queued once more. -/
theorem offered_again (es : Edits) (row : List (List Edit)) :
    row.foldl offered (row.foldl offered es) =
      (row.foldl offered es).queueAll (row.filter insertsOnly).flatten := by
  refine foldl_offered_of_settled ?_
  induction row generalizing es with
  | nil => exact nofun
  | cons changes row ih =>
    intro more hmore
    rcases List.mem_cons.1 hmore with rfl | hmore
    · exact (settled_offered es more).grows (grows_foldl_offered _ row)
    · exact ih (es.offered changes) more hmore

theorem hasSpan_foldl_offered (hchanges : changes ∈ row) (hinserts : insertsOnly changes = true)
    (hs : s ∈ changes.map (·.span)) : (row.foldl offered es).hasSpan s = true := by
  obtain ⟨before, behind, rfl⟩ := List.append_of_mem hchanges
  rw [List.foldl_append, List.foldl_cons]
  refine (grows_foldl_offered _ behind).hasSpan ?_
  rw [offered_of_insertsOnly hinserts, hasSpan_queueAll_iff]
  exact .inl hs

/-! ### One copy and two -/

/-- The second list has the spans of the first one, with the texts of the first one and more in
them: as much as what was queued extra. -/
structure Repeats (extra : List Edit) (es fs : Edits) : Prop where
  hasSpan : ∀ s, fs.hasSpan s = es.hasSpan s
  sublist : ∀ s, (es.textAt s).toList.Sublist (fs.textAt s).toList
  length : ∀ s, (fs.textAt s).length = (es.textAt s).length + (queuedText extra s).length

namespace Repeats

theorem refl (es : Edits) : Repeats [] es es where
  hasSpan _ := rfl
  sublist _ := List.Sublist.refl _
  length _ := rfl

theorem isFree (h : Repeats extra es fs) (s : Span) : fs.isFree s = es.isFree s := by
  rw [Bool.eq_iff_iff, isFree_iff, isFree_iff]
  simp only [h.hasSpan]

theorem queueAll (h : Repeats extra es fs) (calls : List Edit) :
    Repeats extra (es.queueAll calls) (fs.queueAll calls) where
  hasSpan s := by
    rw [Bool.eq_iff_iff, hasSpan_queueAll_iff, hasSpan_queueAll_iff, h.hasSpan]
  sublist s := by
    rw [textAt_queueAll, textAt_queueAll, String.toList_append, String.toList_append]
    exact (h.sublist s).append_right _
  length s := by
    have := h.length s
    rw [textAt_queueAll, textAt_queueAll, String.length_append, String.length_append]
    omega

/-- Calls for spans that are listed, made for the second list only. -/
theorem queueAll_more (h : Repeats extra es fs) (hmore : ∀ c ∈ more, es.hasSpan c.span = true) :
    Repeats (extra ++ more) es (fs.queueAll more) where
  hasSpan s := by
    rw [Bool.eq_iff_iff, hasSpan_queueAll_iff, h.hasSpan, or_iff_right_iff_imp]
    intro hs
    obtain ⟨c, hc, rfl⟩ := List.mem_map.1 hs
    exact hmore c hc
  sublist s := by
    rw [textAt_queueAll, String.toList_append]
    exact (h.sublist s).trans (List.sublist_append_left _ _)
  length s := by
    have := h.length s
    rw [textAt_queueAll, queuedText_append, String.length_append, String.length_append]
    omega

theorem offered (h : Repeats extra es fs) (changes : List Edit) :
    Repeats extra (es.offered changes) (fs.offered changes) := by
  rw [Edits.offered, Edits.offered]
  simp only [h.isFree]
  split
  · exact h.queueAll changes
  · exact h

theorem foldl_offered (h : Repeats extra es fs) (row : List (List Edit)) :
    Repeats extra (row.foldl Edits.offered es) (row.foldl Edits.offered fs) := by
  induction row generalizing es fs with
  | nil => exact h
  | cons changes row ih => exact ih (h.offered changes)

/-- **One row**, offered to the first list once and to the second one twice. -/
theorem foldl_offered_twice (h : Repeats extra es fs) (row : List (List Edit)) :
    Repeats (extra ++ (row.filter insertsOnly).flatten) (row.foldl Edits.offered es)
      ((row ++ row).foldl Edits.offered fs) := by
  rw [List.foldl_append, offered_again]
  refine (h.foldl_offered row).queueAll_more ?_
  intro c hc
  obtain ⟨changes, hchanges, hc⟩ := List.mem_flatten.1 hc
  obtain ⟨hchanges, hinserts⟩ := List.mem_filter.1 hchanges
  exact hasSpan_foldl_offered hchanges hinserts (List.mem_map_of_mem hc)

theorem textAt?_eq (h : Repeats extra es fs) (hs : queuedText extra s = "") :
    fs.textAt? s = es.textAt? s := by
  have hlength : (es.textAt s).toList.length = (fs.textAt s).toList.length := by
    have := h.length s
    rw [hs] at this
    exact this.symm
  have htext : fs.textAt s = es.textAt s :=
    String.toList_injective ((h.sublist s).eq_of_length hlength).symm
  rw [textAt?_eq_ite, textAt?_eq_ite, h.hasSpan, htext]

theorem eq_iff (h : Repeats extra es fs) : fs = es ↔ ∀ s, queuedText extra s = "" := by
  constructor
  · rintro rfl s
    have := h.length s
    exact String.length_eq_zero_iff.1 (by omega)
  · intro hextra
    exact eq_of_textAt?_eq fun s => h.textAt?_eq (hextra s)

end Repeats

end Edits

theorem Draft.edits_offer (d : Draft) (changes : List Edit) :
    (d.offer changes).edits = d.edits.offered changes := by
  rw [Edits.offered]
  rcases d.offer_cases changes with ⟨hfree, h⟩ | ⟨hnot, h, -⟩
  · rw [h, foldl_queue, if_pos]
    exact List.all_eq_true.2 hfree
  · rw [h, if_neg]
    exact fun hall => hnot (List.all_eq_true.1 hall)

namespace Template

def offers (found : List (Template × Match)) : List (List Edit) :=
  found.map fun x => x.1.changes x.2

theorem edits_foldl_offerMatch (found : List (Template × Match)) (d : Draft) :
    (found.foldl Draft.offerMatch d).edits = (offers found).foldl Edits.offered d.edits := by
  induction found generalizing d with
  | nil => rfl
  | cons x xs ih =>
    rw [List.foldl_cons, ih, Draft.offerMatch, Draft.edits_offer]
    rfl

/-- The changes of the matches in a file that only insert. -/
def insertions (templates : List Template) (file : SourceFile) : List Edit :=
  ((offers (found templates file)).filter Edits.insertsOnly).flatten

theorem repeats_foundFrom (file : SourceFile) {es fs : Edits} {extra : List Edit}
    (h : Edits.Repeats extra es fs) (searches : List Search) (sites : List Site) :
    Edits.Repeats
      (extra ++ ((offers (Search.foundFrom file searches sites)).filter Edits.insertsOnly).flatten)
      ((offers (Search.foundFrom file searches sites)).foldl Edits.offered es)
      ((offers (Search.foundFrom file (searches ++ searches) sites)).foldl Edits.offered fs) := by
  induction sites generalizing searches es fs extra with
  | nil => simpa [offers, Search.foundFrom] using h
  | cons site sites ih =>
    -- a copy is tried at a node behind all of the originals, so the node makes one row
    have hhere := h.foldl_offered_twice (offers (Search.hits file site searches))
    have hrest := ih hhere (searches.map (Search.advance file site))
    have htwice : Search.hits file site (searches ++ searches) =
        Search.hits file site searches ++ Search.hits file site searches := List.filterMap_append
    have happend : ∀ xs ys, offers (xs ++ ys) = offers xs ++ offers ys := fun _ _ => List.map_append
    simp only [Search.foundFrom, htwice, happend, List.map_append, List.filter_append,
      List.flatten_append, List.foldl_append, List.append_assoc] at hrest ⊢
    exact hrest

theorem inserts_of_mem_insertions {templates : List Template} {file : SourceFile} {c : Edit}
    (hc : c ∈ insertions templates file) : c.span.isEmpty = true ∧ c.text ≠ "" := by
  obtain ⟨row, hrow, hc⟩ := List.mem_flatten.1 hc
  obtain ⟨hrow, hinserts⟩ := List.mem_filter.1 hrow
  obtain ⟨x, -, rfl⟩ := List.mem_map.1 hrow
  have hempty := List.all_eq_true.1 hinserts c hc
  refine ⟨hempty, ?_⟩
  intro htext
  rw [changes] at hc
  simpa [hempty, htext] using (List.mem_filter.1 hc).2

theorem insertions_eq_nil_iff {templates : List Template} {file : SourceFile} :
    insertions templates file = [] ↔ ∀ x ∈ found templates file,
      (∀ c ∈ x.1.changes x.2, c.span.isEmpty = true) → x.1.changes x.2 = [] := by
  rw [insertions, List.flatten_eq_nil_iff]
  constructor
  · intro h x hx hinserts
    refine h _ (List.mem_filter.2 ⟨List.mem_map_of_mem hx, ?_⟩)
    exact List.all_eq_true.2 hinserts
  · intro h row hrow
    obtain ⟨hrow, hinserts⟩ := List.mem_filter.1 hrow
    obtain ⟨x, hx, rfl⟩ := List.mem_map.1 hrow
    exact h x hx (List.all_eq_true.1 hinserts)

theorem queuedText_insertions_iff {templates : List Template} {file : SourceFile} :
    (∀ s, Edits.queuedText (insertions templates file) s = "") ↔
      insertions templates file = [] := by
  constructor
  · intro h
    cases hlist : insertions templates file with
    | nil => rfl
    | cons c cs =>
      have hc : c ∈ insertions templates file := hlist ▸ List.mem_cons_self
      have htext := h c.span
      rw [hlist, Edits.queuedText_cons, if_pos rfl, String.append_eq_empty_iff] at htext
      exact absurd htext.1 (inserts_of_mem_insertions hc).2
  · intro h s
    rw [h]
    rfl

/-- A text is cut on the way of two copies exactly if one is on the way of one copy. -/
theorem intact_twice (file : SourceFile) (searches : List Search) (sites : List Site) :
    Search.intact file (searches ++ searches) sites = Search.intact file searches sites := by
  induction sites generalizing searches with
  | nil => rfl
  | cons site sites ih =>
    rw [Search.intact, Search.intact, List.map_append, ih, List.all_append, Bool.and_self]

/-- **Templates given twice.**  Whatever has been queued, two copies of a list of templates fail if
one copy fails.  Otherwise they queue what one copy queues if and only if each match that only
inserts has no changes at all.  In any case the same spans are listed, with the same texts if they
are not empty.  For an empty span the text of one copy is part of that of two, which is longer by
what those matches insert there. -/
theorem applyAll_twice (templates : List Template) (file : SourceFile) (d : Draft) :
    (applyAll templates file d = .error .badCut ∧
      applyAll (templates ++ templates) file d = .error .badCut) ∨
    ∃ e f, applyAll templates file d = .ok e ∧ applyAll (templates ++ templates) file d = .ok f ∧
      let once := e.edits
      let twice := f.edits
      (twice = once ↔ ∀ x ∈ found templates file,
        (∀ c ∈ x.1.changes x.2, c.span.isEmpty = true) → x.1.changes x.2 = []) ∧
      ∀ s, twice.hasSpan s = once.hasSpan s ∧
        (s.isEmpty = false → twice.textAt? s = once.textAt? s) ∧
        (once.textAt s).toList.Sublist (twice.textAt s).toList ∧
        (twice.textAt s).length =
          (once.textAt s).length + (Edits.queuedText (insertions templates file) s).length := by
  have hintact : intact (templates ++ templates) file = intact templates file := by
    rw [intact, List.map_append, intact_twice, ← intact]
  rw [applyAll_eq, applyAll_eq, hintact]
  split
  case isFalse => exact .inl ⟨rfl, rfl⟩
  refine .inr ⟨_, _, rfl, rfl, ?_⟩
  intro once twice
  have hrepeats : Edits.Repeats (insertions templates file) once twice := by
    have hwalk := repeats_foundFrom file (.refl d.edits) (templates.map fun t => ⟨t, none⟩)
      file.sites
    rw [← List.map_append] at hwalk
    rw [show once = (offerAll templates file d).edits from rfl,
      show twice = (offerAll (templates ++ templates) file d).edits from rfl, offerAll, offerAll,
      edits_foldl_offerMatch, edits_foldl_offerMatch]
    exact hwalk
  constructor
  · rw [hrepeats.eq_iff, queuedText_insertions_iff, insertions_eq_nil_iff]
  · intro s
    refine ⟨hrepeats.hasSpan s, ?_, hrepeats.sublist s, hrepeats.length s⟩
    intro hwide
    refine hrepeats.textAt?_eq ?_
    have hnone : (insertions templates file).filter (·.span == s) = [] := by
      rw [List.filter_eq_nil_iff]
      intro c hc hspan
      rw [← beq_iff_eq.1 hspan, (inserts_of_mem_insertions hc).1] at hwide
      exact Bool.noConfusion hwide
    rw [Edits.queuedText, hnone]
    rfl

/-! ### Two pairs of parentheses -/

def wholeDifference : Site :=
  (lineOfDifference.sites.find? (·.kind == .binaryExpr)).getD lineOfDifference.root

def wholeMatch : Match := ⟨.ofWidth 0 3, [⟨0, .ofWidth 0 3, .single⟩]⟩

theorem found_parenthesized {templates : List Template} (h : ∀ t ∈ templates, t = parenthesized) :
    found templates lineOfDifference = templates.map (·, wholeMatch) := by
  refine found_of_once (lineOfDifference.sites.take 1) wholeDifference
    (lineOfDifference.sites.drop 2) rfl ?_ ?_ ?_
  · intro s hs t ht
    have hfile : ∀ s ∈ lineOfDifference.sites.take 1,
        parenthesized.capture? lineOfDifference [] 0 s = none := by
      decide
    rw [h t ht, find?_of_hole rfl, hfile s hs]
    rfl
  · intro t ht
    have hhole : parenthesized.hole? parenthesized.root = some 0 := rfl
    rw [h t ht, find?_of_hole hhole]
    rfl
  · intro s hs t ht
    have hcovers : ∀ s ∈ lineOfDifference.sites.drop 2,
        s.ancestors.any (·.key == wholeDifference.key) = true := by
      decide
    exact .inl (hcovers s hs)

theorem changes_parenthesized : parenthesized.changes wholeMatch =
    [⟨.empty 0, "("⟩, ⟨.empty 3, ")"⟩] := by
  have hsorted : wholeMatch.captures.mergeSort comesBefore = wholeMatch.captures :=
    List.mergeSort_of_pairwise (by decide)
  rw [changes, hsorted]
  decide

theorem applyAll_parenthesized {templates : List Template} (h : ∀ t ∈ templates, t = parenthesized)
    (d : Draft) : applyAll templates lineOfDifference d =
      .ok (templates.foldl (fun d _ => d.offer [⟨.empty 0, "("⟩, ⟨.empty 3, ")"⟩]) d) := by
  have hintact : intact templates lineOfDifference = true := intact_of_forall fun t ht s _ => by
    rw [h t ht]
    exact ⟨_, find_of_hole rfl⟩
  rw [applyAll_of_intact hintact, offerAll, found_parenthesized h, List.foldl_map]
  refine congrArg Except.ok (List.foldl_ext _ _ d fun d t ht => ?_)
  rw [Draft.offerMatch, h t ht, changes_parenthesized]

/-- **Parentheses are put twice.**  One copy of the template turns `a-b` into `(a-b)`, two copies
turn it into `((a-b))`. -/
theorem parenthesized_twice : ∃ once twice,
    applyAll [parenthesized] lineOfDifference (.ofText "a-b") = .ok once ∧
    applyAll ([parenthesized] ++ [parenthesized]) lineOfDifference (.ofText "a-b") = .ok twice ∧
    once.edits.toList = [⟨.empty 0, "("⟩, ⟨.empty 3, ")"⟩] ∧
    twice.edits.toList = [⟨.empty 0, "(("⟩, ⟨.empty 3, "))"⟩] ∧
    once.result = .ok ⟨"(a-b)", [], []⟩ ∧ twice.result = .ok ⟨"((a-b))", [], []⟩ := by
  refine ⟨_, _, applyAll_parenthesized (by simp) _, applyAll_parenthesized (by simp) _, ?_⟩
  refine ⟨?_, ?_, ?_, ?_⟩
  · decide
  · decide
  · decide +kernel
  · decide +kernel

end Template

end SourceRename
