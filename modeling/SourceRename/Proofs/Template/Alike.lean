import SourceRename.Proofs.Template.Scope

/-!
# Captures of one parameter

A parameter that a template uses twice is to stand for the same text both times.  Only single
expressions are compared with what was captured for the parameter first; arguments that are
gathered, and arguments that are omitted, are compared with nothing:

    f(xs) - f(xs)  ↦  g(xs) * g(xs)    turns    f(a) - f()    into    g(a) * g()

So all captures of a parameter read alike if and only if those that are no single expressions read
like the first one (`captures_alike_iff`).  An ordinary parameter has no such captures.
-/

namespace SourceRename.Template

variable {t : Template} {file : SourceFile} {site : Site} {m : Match} {text part other : List Char}
  {a b span : Span} {i : Nat}

/-- The bytes of a span are those of a text.  An empty span has no bytes, wherever it stands. -/
def Reads (text : List Char) (span : Span) (part : List Char) : Prop :=
  slice? text span = some part ∨ span.width = 0 ∧ part = []

def ReadAlike (text : List Char) (a b : Span) : Prop := ∃ part, Reads text a part ∧ Reads text b part

/-- Whatever is captured for a parameter has the same bytes. -/
def AllAlike (text : List Char) (captures : List Capture) (i : Nat) : Prop :=
  ∀ c ∈ captures, ∀ d ∈ captures, c.parameter = i → d.parameter = i → ReadAlike text c.span d.span

/-! ### Bytes of a span -/

theorem Reads.byteLength_eq (h : Reads text span part) : byteLength part = span.width := by
  rcases h with h | ⟨hwidth, rfl⟩
  · obtain ⟨-, -, -, -, hlength⟩ := slice?_eq_some_iff.1 h
    exact hlength
  · exact hwidth.symm

theorem Reads.unique (h : Reads text span part) (hother : Reads text span other) : part = other := by
  by_cases hwidth : span.width = 0
  · rw [byteLength_eq_zero.1 (h.byteLength_eq.trans hwidth),
      byteLength_eq_zero.1 (hother.byteLength_eq.trans hwidth)]
  · have hslice := h.resolve_right fun h => hwidth h.1
    have hslice' := hother.resolve_right fun h => hwidth h.1
    exact Option.some.inj (hslice.symm.trans hslice')

theorem ReadAlike.reads (h : ReadAlike text a b) (ha : Reads text a part) : Reads text b part := by
  obtain ⟨same, hsame, hb⟩ := h
  rwa [ha.unique hsame]

theorem exists_slice? (hsite : site.StandsIn file.text.toList) (hm : t.find? file site = some m)
    {c : Capture} (hc : c ∈ m.captures) (hkept : c.extent ≠ .omitted) :
    ∃ part, slice? file.text.toList c.span = some part := by
  obtain ⟨hcollect, -, -⟩ := find?_eq_some hm
  have hsound := (laid_of_collect hcollect).2 c (mem_kept_iff.2 ⟨hc, hkept⟩)
  obtain ⟨hstart, hstop⟩ := hsound.cut hsite
  exact exists_slice?_of_cut hstart hstop

theorem exists_reads (hsite : site.StandsIn file.text.toList) (hm : t.find? file site = some m)
    {c : Capture} (hc : c ∈ m.captures) : ∃ part, Reads file.text.toList c.span part := by
  by_cases homitted : c.extent = .omitted
  · obtain ⟨args, -, -, hspan⟩ := omitted_of_collect (find?_eq_some hm).1 hc homitted
    refine ⟨[], .inr ⟨?_, rfl⟩⟩
    rw [hspan]
    exact Nat.sub_self _
  · obtain ⟨part, hpart⟩ := exists_slice? hsite hm hc homitted
    exact ⟨part, .inl hpart⟩

theorem extent_of_not_variadic (hm : t.find? file site = some m) {c : Capture}
    (hc : c ∈ m.captures) (hfixed : t.isVariadic c.parameter = false) : c.extent = .single := by
  obtain ⟨around, hole, hmade⟩ := (mem_captures_iff (find?_eq_some hm).1).1 hc
  cases hmade with
  | expression _ _ hcapture => exact (capture?_eq_some hcapture).2.2.1
  | arguments _ _ _ _ hgathers =>
    rw [isVariadic_of_gathers hgathers] at hfixed
    exact absurd hfixed (by decide)

/-! ### The first capture -/

/-- An expression reads like the first thing captured for its parameter. -/
theorem readAlike_of_single (hsite : site.StandsIn file.text.toList)
    (hm : t.find? file site = some m) {first c : Capture}
    (hfirst : m.captures.find? (·.parameter == c.parameter) = some first) (hc : c ∈ m.captures)
    (hsingle : c.extent = .single) : ReadAlike file.text.toList first.span c.span := by
  obtain ⟨-, hconsistent, -⟩ := find?_eq_some hm
  have hsame := slice?_of_consistent hconsistent hc hsingle (by simpa using hfirst)
  obtain ⟨part, hpart⟩ := exists_slice? hsite hm hc (by simp [hsingle])
  exact ⟨part, .inl (hsame.trans hpart), .inl hpart⟩

/-- **Captures of one parameter** all have the same bytes if and only if those that are no single
expressions have the bytes of the first one.  For a parameter that is not variadic they do. -/
theorem captures_alike_iff (hfile : file.Lossless) (hsite : site ∈ file.sites)
    (hm : t.find? file site = some m) (i : Nat) :
    (AllAlike file.text.toList m.captures i ↔
      ∀ first, m.captures.find? (·.parameter == i) = some first →
        ∀ c ∈ m.captures, c.parameter = i → c.extent ≠ .single →
          ReadAlike file.text.toList first.span c.span) ∧
    (t.isVariadic i = false → AllAlike file.text.toList m.captures i) := by
  have hstands := hfile.standsIn hsite
  have hiff : AllAlike file.text.toList m.captures i ↔
      ∀ first, m.captures.find? (·.parameter == i) = some first →
        ∀ c ∈ m.captures, c.parameter = i → c.extent ≠ .single →
          ReadAlike file.text.toList first.span c.span := by
    constructor
    · intro h first hfirst c hc hparameter _
      have hof : first.parameter = i := by simpa using List.find?_some hfirst
      exact h first (List.mem_of_find?_eq_some hfirst) c hc hof hparameter
    · intro h c hc d hd hci hdi
      obtain ⟨first, hfirst⟩ : ∃ first, m.captures.find? (·.parameter == i) = some first :=
        Option.isSome_iff_exists.1 (List.find?_isSome.2 ⟨c, hc, by simpa using hci⟩)
      -- both read like the first one, whether they were compared with it or not
      have hall : ∀ e ∈ m.captures, e.parameter = i →
          ReadAlike file.text.toList first.span e.span := by
        intro e he hei
        by_cases hsingle : e.extent = .single
        · exact readAlike_of_single hstands hm (hei ▸ hfirst) he hsingle
        · exact h first hfirst e he hei hsingle
      obtain ⟨part, hpart⟩ := exists_reads hstands hm (List.mem_of_find?_eq_some hfirst)
      exact ⟨part, (hall c hc hci).reads hpart, (hall d hd hdi).reads hpart⟩
  refine ⟨hiff, fun hfixed => hiff.2 fun first _ c hc hparameter hextent => ?_⟩
  exact absurd (extent_of_not_variadic hm hc (hparameter ▸ hfixed)) hextent

/-! ### One parameter in two calls -/

def callDifference (left right : List Tree) : Tree :=
  .node .binaryExpr [callOf "f" left, .token .minus "-", callOf "f" right]

/-- The template that turns `f(xs)-f(xs)` into `g(xs)*g(xs)`. -/
def callDifferenceTemplate : Template :=
  ⟨"m", [⟨"xs", none⟩], true, callDifference [loneName "xs"] [loneName "xs"], .empty,
    ["g(", ")*g(", ")"]⟩

def callProduct : Tree :=
  .node .binaryExpr [callOf "g" [loneName "xs"], .token .star "*", callOf "g" [loneName "xs"]]

/-- The difference `f(a)-f()`. -/
def emptySecond : Tree := callDifference [loneName "a"] []

def emptySecondMatch : Match := ⟨.ofWidth 0 8,
  [⟨0, .ofWidth 2 1, .single⟩, ⟨0, .empty 7, .omitted⟩]⟩

theorem find?_emptySecond : callDifferenceTemplate.find? (expressionFile emptySecond)
    (expressionSite emptySecond) = some emptySecondMatch := by
  have hcollect : callDifferenceTemplate.collect (expressionFile emptySecond) []
      callDifferenceTemplate.root (expressionSite emptySecond) =
        some emptySecondMatch.captures := by
    refine collect_of_rows [[⟨0, .ofWidth 2 1, .single⟩], [⟨0, .empty 7, .omitted⟩]] rfl rfl
      (.cons ?_ (.cons ?_ .nil)) rfl
    · refine collect_of_rows [[], [⟨0, .ofWidth 2 1, .single⟩]] rfl rfl
        (.cons ?_ (.cons ?_ .nil)) rfl
      · exact collect_of_rows [] rfl rfl .nil rfl
      · rw [collect_of_hole rfl]
        rfl
    · refine collect_of_rows [[]] rfl rfl (.cons ?_ .nil) rfl
      exact collect_of_rows [] rfl rfl .nil rfl
  rw [find?_eq, hcollect]
  rfl

/-- **A variadic parameter used twice.**  In `f(a)-f()` it stands for `a` and for nothing, and the
template matches. -/
theorem gathered_unlike :
    (gathering marked (callDifference [loneName "xs"] [loneName "xs"])).Lossless ∧
    (gathering [] callProduct).Lossless ∧ (expressionFile emptySecond).Lossless ∧
    readAll (gathering marked (callDifference [loneName "xs"] [loneName "xs"]))
      (gathering [] callProduct) "M" = .ok [callDifferenceTemplate] ∧
    expressionSite emptySecond ∈ (expressionFile emptySecond).sites ∧
    callDifferenceTemplate.find? (expressionFile emptySecond) (expressionSite emptySecond) =
      some emptySecondMatch ∧
    ¬ AllAlike (expressionFile emptySecond).text.toList emptySecondMatch.captures 0 ∧
    (Edits.ofCalls (callDifferenceTemplate.changes emptySecondMatch)).applyTo?
      (expressionFile emptySecond).text = some ("g(a)*g()", []) := by
  refine ⟨⟨_, rfl, by decide +kernel⟩, ⟨_, rfl, by decide +kernel⟩, ⟨_, rfl, by decide +kernel⟩, rfl,
    List.mem_cons_of_mem _ List.mem_cons_self, find?_emptySecond, ?_, ?_⟩
  · intro h
    obtain ⟨part, ha, hnone⟩ := h _ List.mem_cons_self _
      (List.mem_cons_of_mem _ List.mem_cons_self) rfl rfl
    have hone := ha.byteLength_eq
    have hzero := hnone.byteLength_eq
    rw [hzero] at hone
    exact absurd hone (by decide)
  · have hsorted : emptySecondMatch.captures.mergeSort comesBefore = emptySecondMatch.captures :=
      List.mergeSort_of_pairwise (by decide)
    rw [changes, hsorted]
    decide +kernel

/-- The difference `f(a,b)-f(a,b)`. -/
def twicePair : Tree :=
  let pair := [loneName "a", .token .comma ",", loneName "b"]
  callDifference pair pair

def twicePairMatch : Match := ⟨.ofWidth 0 13,
  [⟨0, .ofWidth 2 3, .run⟩, ⟨0, .ofWidth 9 3, .run⟩]⟩

/-- In `f(a,b)-f(a,b)` the parameter stands for `a,b` both times. -/
theorem gathered_alike :
    (expressionFile twicePair).Lossless ∧
    expressionSite twicePair ∈ (expressionFile twicePair).sites ∧
    callDifferenceTemplate.find? (expressionFile twicePair) (expressionSite twicePair) =
      some twicePairMatch ∧
    AllAlike (expressionFile twicePair).text.toList twicePairMatch.captures 0 := by
  have hfile : (expressionFile twicePair).Lossless := ⟨_, rfl, by decide +kernel⟩
  have hsite : expressionSite twicePair ∈ (expressionFile twicePair).sites :=
    List.mem_cons_of_mem _ List.mem_cons_self
  have hcollect : callDifferenceTemplate.collect (expressionFile twicePair) []
      callDifferenceTemplate.root (expressionSite twicePair) = some twicePairMatch.captures := by
    refine collect_of_rows [[⟨0, .ofWidth 2 3, .run⟩], [⟨0, .ofWidth 9 3, .run⟩]] rfl rfl
      (.cons ?_ (.cons ?_ .nil)) rfl
    all_goals
      refine collect_of_rows [[]] rfl rfl (.cons ?_ .nil) rfl
      exact collect_of_rows [] rfl rfl .nil rfl
  have hm : callDifferenceTemplate.find? (expressionFile twicePair) (expressionSite twicePair) =
      some twicePairMatch := by
    rw [find?_eq, hcollect]
    rfl
  refine ⟨hfile, hsite, hm, (captures_alike_iff hfile hsite hm 0).1.2 ?_⟩
  have htexts : ∀ c ∈ twicePairMatch.captures,
      slice? (expressionFile twicePair).text.toList c.span = some "a,b".toList := by
    decide +kernel
  intro first hfirst c hc _ _
  exact ⟨_, .inl (htexts first (List.mem_of_find?_eq_some hfirst)), .inl (htexts c hc)⟩

end SourceRename.Template
