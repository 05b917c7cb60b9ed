import SourceRename.Proofs.Fault
import SourceRename.Template.Match

/-!
# Matches apart from failures

Looking for a match (`Template.find`) does three things at once: it lays the template over the file,
lists what is captured on the way, and compares the texts of captures, which may fail.  What is said
of matches is said of the first two:

    find? = the captures of nodes that match (`collect`), where they read alike (`consistent`)

A match is found exactly if `find` gives it (`find_eq_ok_some_iff`), so only nodes without a match
are told apart by failures. -/

namespace SourceRename

namespace Trace

/-- What is captured, where the nodes match. -/
def found? (r : Trace) : Option (List Capture) := if r.fits then some r.captures else none

theorem found?_foldr (rs : List Trace) (last : Trace) :
    (rs.foldr followedBy last).found? =
      (rs.mapM found?).bind fun parts => last.found?.map (parts.flatten ++ ·) := by
  induction rs with
  | nil =>
    rw [List.foldr_nil, List.mapM_nil]
    cases last.found? <;> rfl
  | cons r rs ih =>
    rw [List.foldr_cons, followedBy, List.mapM_cons]
    by_cases hfits : r.fits = true
    · have hfound : r.found? = some r.captures := if_pos hfits
      have hrest : (⟨r.captures ++ (rs.foldr followedBy last).captures,
          (rs.foldr followedBy last).fits⟩ : Trace).found? =
            (rs.foldr followedBy last).found?.map (r.captures ++ ·) := by
        simp only [found?]
        split <;> rfl
      rw [if_pos hfits, hrest, ih, hfound]
      cases rs.mapM found? with
      | none => rfl
      | some parts => cases last.found? <;> simp
    · have hfound : r.found? = none := if_neg hfits
      rw [if_neg hfits, hfound]
      rfl

end Trace

namespace Template

variable {t : Template} {file : SourceFile} {bound : Bound} {p e site : Site} {m : Match}

/-! ### Captures -/

def collect (t : Template) (file : SourceFile) (bound : Bound) (p e : Site) :
    Option (List Capture) :=
  (t.trace file bound p e).found?

theorem collect_of_hole {parameter : Nat} (h : t.hole? p = some parameter) :
    t.collect file bound p e = (t.capture? file bound parameter e).map ([·]) := by
  rw [collect, trace_of_hole h]
  cases t.capture? file bound parameter e <;> rfl

theorem trace_of_collect {captures : List Capture} (h : t.collect file bound p e = some captures) :
    t.trace file bound p e = ⟨captures, true⟩ := by
  rw [collect, Trace.found?, Option.ite_none_right_eq_some] at h
  obtain ⟨hfits, hcaptures⟩ := h
  rw [← hfits, ← Option.some.inj hcaptures]

theorem attempt_of_align {a : Alignment} (h : t.align file bound p e = some a) :
    t.attempt file bound p e = (a, true) := by
  rw [attempt, h]

theorem attempt_of_not_align (h : t.align file bound p e = none) :
    t.attempt file bound p e = (⟨t.begun file p e, bound, []⟩, false) := by
  rw [attempt, h]

theorem collect_of_attempt {a : Alignment} {complete : Bool} (hole : t.hole? p = none)
    (h : t.attempt file bound p e = (a, complete)) :
    t.collect file bound p e = (a.pairs.mapM fun x => t.collect file a.bound x.1 x.2).bind
      fun parts => (Trace.mk a.captures complete).found?.map (parts.flatten ++ ·) := by
  rw [collect, trace_of_attempt hole h, Trace.found?_foldr, List.mapM_map]
  rfl

theorem collect_of_align {a : Alignment} (hole : t.hole? p = none)
    (h : t.align file bound p e = some a) :
    t.collect file bound p e =
      (a.pairs.mapM fun x => t.collect file a.bound x.1 x.2).map (·.flatten ++ a.captures) := by
  rw [collect_of_attempt hole (attempt_of_align h)]
  cases a.pairs.mapM fun x => t.collect file a.bound x.1 x.2 <;> rfl

theorem collect_of_not_align (hole : t.hole? p = none) (h : t.align file bound p e = none) :
    t.collect file bound p e = none := by
  rw [collect_of_attempt hole (attempt_of_not_align h)]
  cases (t.begun file p e).mapM fun x => t.collect file bound x.1 x.2 <;> rfl

/-! ### Texts of captures -/

/-- Every expression captured reads like the first capture of the same parameter, and neither is cut
inside a character. -/
def consistent (text : List Char) (earlier captures : List Capture) : Bool :=
  (allAlike text earlier captures).toOption.getD false

theorem consistent_iff {text : List Char} {earlier captures : List Capture} :
    consistent text earlier captures = true ↔ allAlike text earlier captures = .ok true := by
  rw [consistent]
  cases allAlike text earlier captures <;> simp [Except.toOption]

theorem textOf_eq_ok_iff {text part : List Char} {span : Span} :
    textOf text span = .ok part ↔ slice? text span = some part := by
  rw [textOf]
  cases slice? text span <;> simp

theorem alike_eq_true_iff {text : List Char} {earlier : List Capture} {c : Capture} :
    alike text earlier c = .ok true ↔
      (c.extent = .single → ∀ first, earlier.find? (·.parameter == c.parameter) = some first →
        ∃ part, slice? text first.span = some part ∧ slice? text c.span = some part) := by
  rw [alike]
  split
  · next first hextent hfirst =>
    simp only [bind_eq_ok_iff, textOf_eq_ok_iff, pure, Except.pure, Except.ok.injEq, beq_iff_eq]
    constructor
    · rintro ⟨part, hpart, part', hpart', rfl⟩ - first' hfirst'
      obtain rfl := Option.some.inj (hfirst.symm.trans hfirst')
      exact ⟨part, hpart, hpart'⟩
    · intro h
      obtain ⟨part, hpart, hpart'⟩ := h hextent first hfirst
      exact ⟨part, hpart, part, hpart', rfl⟩
  · next hnot =>
    exact iff_of_true rfl fun hextent first hfirst => absurd hfirst (hnot first hextent)

theorem allAlike_cons_eq_true_iff {text : List Char} {earlier cs : List Capture} {c : Capture} :
    allAlike text earlier (c :: cs) = .ok true ↔
      alike text earlier c = .ok true ∧ allAlike text (earlier ++ [c]) cs = .ok true := by
  rw [allAlike, bind_eq_ok_iff]
  constructor
  · rintro ⟨same, hsame, hrest⟩
    cases same with
    | true => exact ⟨hsame, hrest⟩
    | false => exact absurd (Except.ok.inj hrest) Bool.false_ne_true
  · rintro ⟨hsame, hrest⟩
    exact ⟨true, hsame, hrest⟩

theorem allAlike_singleton (text : List Char) (c : Capture) : allAlike text [] [c] = .ok true :=
  allAlike_cons_eq_true_iff.2 ⟨alike_eq_true_iff.2 fun _ first hfirst => by simp at hfirst, rfl⟩

/-- Comparing captures fails where a text is cut inside a character. -/
theorem exists_of_allAlike_eq_error {text : List Char} {earlier captures : List Capture} {f : Fault}
    (h : allAlike text earlier captures = .error f) :
    f = .badCut ∧ ∃ c ∈ earlier ++ captures, slice? text c.span = none := by
  have htext : ∀ {span}, textOf text span = .error f → f = .badCut ∧ slice? text span = none := by
    intro span hspan
    rw [textOf] at hspan
    split at hspan
    · simp at hspan
    · next hnone => exact ⟨(Except.error.inj hspan).symm, hnone⟩
  induction captures generalizing earlier with
  | nil => simp [allAlike] at h
  | cons c cs ih =>
    rw [allAlike, bind_eq_error_iff] at h
    rcases h with h | ⟨same, -, h⟩
    · rw [alike] at h
      split at h
      · next first _ hfirst =>
        rw [bind_eq_error_iff] at h
        rcases h with h | ⟨part, -, h⟩
        · refine ⟨(htext h).1, first, ?_, (htext h).2⟩
          exact List.mem_append_left _ (List.mem_of_find?_eq_some hfirst)
        · rcases bind_eq_error_iff.1 h with h | ⟨part', -, h⟩
          · exact ⟨(htext h).1, c, by simp, (htext h).2⟩
          · exact absurd h (by simp [pure, Except.pure])
      · simp at h
    · split at h
      · obtain ⟨hfault, d, hd, hnone⟩ := ih h
        exact ⟨hfault, d, by simpa using hd, hnone⟩
      · exact absurd h (by simp [pure, Except.pure])

/-! ### Matches -/

/-- The match at a node, if there is one and nothing fails. -/
def find? (t : Template) (file : SourceFile) (site : Site) : Option Match :=
  (t.find file site).toOption.join

theorem find_eq_ok_some_iff : t.find file site = .ok (some m) ↔ t.find? file site = some m := by
  rw [find?]
  cases t.find file site <;> simp [Except.toOption]

/-- Looking for a match fails where the text of something captured on the way is cut inside a
character. -/
theorem exists_of_find_eq_error {f : Fault} (h : t.find file site = .error f) :
    f = .badCut ∧ ∃ c ∈ (t.trace file [] t.root site).captures,
      slice? file.text.toList c.span = none := by
  rw [find, bind_eq_error_iff] at h
  rcases h with h | ⟨same, -, h⟩
  · simpa using exists_of_allAlike_eq_error h
  · exact absurd h (by simp [pure, Except.pure])

theorem find_eq_ok_none (h : t.find file site = .ok none) : t.find? file site = none := by
  rw [find?, h]
  rfl

theorem find_of_hole {parameter : Nat} (h : t.hole? t.root = some parameter) :
    t.find file site =
      .ok ((t.capture? file [] parameter site).map fun c => ⟨site.span, [c]⟩) := by
  rw [find, trace_of_hole h]
  cases t.capture? file [] parameter site with
  | none => rfl
  | some c =>
    show allAlike file.text.toList [] [c] >>= _ = _
    rw [allAlike_singleton]
    rfl

theorem find?_of_hole {parameter : Nat} (h : t.hole? t.root = some parameter) :
    t.find? file site = (t.capture? file [] parameter site).map fun c => ⟨site.span, [c]⟩ := by
  rw [find?, find_of_hole h]
  rfl

/-- **A match is what is captured where nodes match**, if the captures read alike. -/
theorem find?_eq (t : Template) (file : SourceFile) (site : Site) :
    t.find? file site = (t.collect file [] t.root site).bind fun captures =>
      if consistent file.text.toList [] captures then some ⟨site.span, captures⟩ else none := by
  rw [find?, find, collect, Trace.found?]
  by_cases hfits : (t.trace file [] t.root site).fits = true
  · rw [hfits, if_pos rfl, Option.bind_some, consistent]
    rcases allAlike file.text.toList [] (t.trace file [] t.root site).captures with f | _ | _
      <;> rfl
  · rw [if_neg hfits, Bool.eq_false_iff.2 hfits]
    rcases allAlike file.text.toList [] (t.trace file [] t.root site).captures with f | _ | _
      <;> rfl

theorem mem_trace_of_find? {c : Capture} (h : t.find? file site = some m) (hc : c ∈ m.captures) :
    c ∈ (t.trace file [] t.root site).captures := by
  rw [find?_eq, Option.bind_eq_some_iff] at h
  obtain ⟨captures, hcollect, h⟩ := h
  obtain ⟨-, h⟩ := Option.ite_none_right_eq_some.1 h
  obtain rfl := Option.some.inj h
  rwa [trace_of_collect hcollect]

end Template

end SourceRename
