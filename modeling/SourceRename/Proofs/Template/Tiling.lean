import SourceRename.Proofs.Syntax.Faithful
import SourceRename.Proofs.Template.Found
import SourceRename.Proofs.Template.Instantiate

/-!
# Captures and gaps tile a match

The changes of a match replace the gaps around its captures, so the bytes of the matched node are
those of the captures, which stay, and those of the gaps, which go (`changes_tile`).

Two things could spoil this.  Where no arguments are captured for a variadic parameter, an empty
span is, and it may stand inside another capture; the gap next to it is then empty, because a gap
begins where all captures before it have ended (`gaps_apart`).  And in an argument list without a
parenthesis this empty span is put one byte behind the start of the list, though the list may be
empty.  In a tree that was built from declarations an empty node is never the last child, so there
is a byte behind it in the matched node (`Site.Tight.start_lt`). -/

namespace SourceRename.Template

variable {t : Template} {file : SourceFile} {bound : Bound} {p e : Site} {text : List Char}
  {captures : List Capture} {start stop x : Nat} {c : Capture}

/-! ### Places of captures -/

/-- The place behind the arguments of a list lies in the list, or one byte behind its start. -/
theorem tailStart_within (args : Site) : args.span.start ≤ tailStart args args.expressions ∧
    tailStart args args.expressions ≤ max args.span.stop (args.span.start + 1) := by
  rcases tailStart_cases args with ⟨last, hlast, h⟩ | ⟨paren, hparen, h⟩ | ⟨-, -, h⟩
  · have hin := Site.within_of_mem_nodes hlast
    have := last.span.start_le_stop
    omega
  · have hin := Site.within_of_mem_directTokens hparen
    have := paren.span.start_le_stop
    omega
  · omega

theorem omitted_within (htight : e.Tight)
    (h : t.collect file bound p e = some captures) (hc : c ∈ captures)
    (homitted : c.extent = .omitted) : c.span.start = c.span.stop ∧
      e.span.start ≤ c.span.start ∧ c.span.stop ≤ e.span.stop := by
  obtain ⟨args, hargs, -, hspan⟩ := omitted_of_collect h hc homitted
  have hin := Site.within_of_mem_below hargs
  have hlt := htight.start_lt hargs
  have htail := tailStart_within args
  rw [hspan]
  show tailStart args args.expressions = tailStart args args.expressions ∧
    e.span.start ≤ tailStart args args.expressions ∧
    tailStart args args.expressions ≤ e.span.stop
  omega

/-- **Captures lie in the node** and no two of them share a byte. -/
theorem captures_of_collect (htight : e.Tight)
    (h : t.collect file bound p e = some captures) :
    (∀ c ∈ captures, e.span.start ≤ c.span.start ∧ c.span.stop ≤ e.span.stop) ∧
      captures.Pairwise fun c d => c.span.overlaps d.span = false := by
  have hlaid := (laid_of_collect h).1
  refine ⟨fun c hc => ?_, ?_⟩
  · by_cases homitted : c.extent = .omitted
    · exact (omitted_within htight h hc homitted).2
    · exact hlaid.inside _ (List.mem_map_of_mem (mem_kept_iff.2 ⟨hc, homitted⟩))
  · have hkept := List.pairwise_filter.1 (List.pairwise_map.1 hlaid.apart)
    refine hkept.imp_of_mem fun {c d} hc hd hapart => ?_
    rw [Bool.eq_false_iff, ne_eq, Span.overlaps_iff]
    -- an omitted capture has no byte to share
    by_cases hco : c.extent = .omitted
    · have := (omitted_within htight h hc hco).1
      omega
    · by_cases hdo : d.extent = .omitted
      · have := (omitted_within htight h hd hdo).1
        omega
      · rcases hapart (decide_eq_true hco) (decide_eq_true hdo) with h | h
        · omega
        · omega

/-! ### Gaps -/

theorem gaps_within (hle : start ≤ stop) (hin : ∀ c ∈ captures, c.span.stop ≤ stop) :
    ∀ g ∈ gaps start stop captures, start ≤ g.start ∧ g.stop ≤ stop := by
  induction captures generalizing start with
  | nil =>
    intro g hg
    obtain rfl := List.mem_singleton.1 hg
    exact ⟨Nat.le_refl _, Nat.le_of_eq (Nat.max_eq_right hle)⟩
  | cons c cs ih =>
    obtain ⟨hc, hcs⟩ := List.forall_mem_cons.1 hin
    have hspan := c.span.start_le_stop
    intro g hg
    rcases List.mem_cons.1 hg with rfl | hg
    · show start ≤ start ∧ max start c.span.start ≤ stop
      omega
    · have := ih (by omega) hcs g hg
      omega

theorem gaps_cover (hstart : start ≤ x) (hstop : x < stop) (captures : List Capture) :
    (∃ g ∈ gaps start stop captures, g.start ≤ x ∧ x < g.stop) ∨
      ∃ c ∈ captures, c.span.start ≤ x ∧ x < c.span.stop := by
  induction captures generalizing start with
  | nil =>
    refine .inl ⟨_, List.mem_singleton_self _, hstart, ?_⟩
    show x < max start stop
    omega
  | cons c cs ih =>
    by_cases hgap : x < c.span.start
    · refine .inl ⟨_, List.mem_cons_self, hstart, ?_⟩
      show x < max start c.span.start
      omega
    · by_cases hcapture : x < c.span.stop
      · exact .inr ⟨c, List.mem_cons_self, by omega, hcapture⟩
      · have hnext : max start c.span.stop ≤ x := by omega
        rcases ih hnext with ⟨g, hg, hx⟩ | ⟨d, hd, hx⟩
        · exact .inl ⟨g, List.mem_cons_of_mem _ hg, hx⟩
        · exact .inr ⟨d, List.mem_cons_of_mem c hd, hx⟩

/-- **Gaps are apart from the captures.**  The captures are in order and share no byte; what begins
in front of the first gap has ended there. -/
theorem gaps_apart (hsorted : captures.Pairwise fun c d => comesBefore c d = true)
    (hclear : captures.Pairwise fun c d => c.span.overlaps d.span = false)
    (hdone : ∀ c ∈ captures, c.span.start < start → c.span.stop ≤ start) :
    ∀ g ∈ gaps start stop captures, ∀ c ∈ captures, g.Apart c.span := by
  induction captures generalizing start with
  | nil => exact fun _ _ c hc => absurd hc List.not_mem_nil
  | cons c cs ih =>
    obtain ⟨hfirst, hsorted⟩ := List.pairwise_cons.1 hsorted
    obtain ⟨hfree, hclear⟩ := List.pairwise_cons.1 hclear
    obtain ⟨hcdone, hdone⟩ := List.forall_mem_cons.1 hdone
    have hcspan := c.span.start_le_stop
    have hrest : ∀ d ∈ cs, d.span.start < max start c.span.stop →
        d.span.stop ≤ max start c.span.stop := by
      intro d hd hlt
      have hd' := hdone d hd
      have horder := comesBefore_iff.1 (hfirst d hd)
      have hapart := hfree d hd
      rw [Bool.eq_false_iff, ne_eq, Span.overlaps_iff] at hapart
      omega
    intro g hg d hd
    rcases List.mem_cons.1 hg with rfl | hg
    · show max start c.span.start ≤ d.span.start ∨ d.span.stop ≤ start
      rcases List.mem_cons.1 hd with rfl | hd
      · omega
      · have hd' := hdone d hd
        have horder := comesBefore_iff.1 (hfirst d hd)
        omega
    · rcases List.mem_cons.1 hd with rfl | hd
      · have := (pairwise_gaps (max start d.span.stop) stop cs).2 g hg
        exact .inr (by omega)
      · exact ih hsorted hclear hrest g hg d hd

/-! ### Changes -/

theorem length_resize {α : Type} (filling : α) (length : Nat) (xs : List α) :
    (resize filling length xs).length = length := by
  rw [resize, List.length_append, List.length_take, List.length_replicate]
  omega

theorem changes_fill (t : Template) (m : Match) :
    (∀ e ∈ t.changes m,
      e.span ∈ gaps m.root.start m.root.stop (m.captures.mergeSort comesBefore)) ∧
    ∀ g ∈ gaps m.root.start m.root.stop (m.captures.mergeSort comesBefore), g.start < g.stop →
      ∃ e ∈ t.changes m, e.span = g := by
  constructor
  · intro e he
    have hspan := List.mem_map_of_mem (f := fun e : Edit => e.span) (List.mem_filter.1 he).1
    exact (spans_zipWith_sublist _ _).subset hspan
  · intro g hg hwide
    obtain ⟨i, hi, rfl⟩ := List.getElem_of_mem hg
    let spans := gaps m.root.start m.root.stop (m.captures.mergeSort comesBefore)
    let fragments := dropSeparators (m.captures.mergeSort comesBefore)
      (resize [] spans.length (t.replacement.map String.toList))
    have hlen : fragments.length = spans.length := by rw [length_dropSeparators, length_resize]
    have hi' : i < (spans.zipWith (fun span text => Edit.mk span (String.ofList text))
        fragments).length := by
      rw [List.length_zipWith, hlen, Nat.min_self]
      exact hi
    have hat := List.getElem_zipWith (h := hi')
    refine ⟨_, List.mem_filter.2 ⟨List.getElem_mem hi', ?_⟩, by rw [hat]⟩
    rw [hat, Bool.not_eq_true', Bool.and_eq_false_iff]
    left
    exact beq_eq_false_iff_ne.2 (Nat.ne_of_lt hwide)

/-! ### Matches -/

theorem kind_ne_of_collect (h : t.collect file bound p e = some captures) :
    e.kind ≠ .sourceFile := by
  intro hkind
  cases hhole : t.hole? p with
  | some parameter =>
    rw [collect_of_hole hhole, capture?, hkind] at h
    simp [Kind.isExpression] at h
  | none =>
    have halign : t.align file bound p e = none := by
      unfold align
      split
      · next hsame => rw [hsame, hkind]
      · rfl
    rw [collect_of_not_align hhole halign] at h
    exact absurd h (by simp)

theorem tight_of_find? {name source : String} {language : Language} {facts : List NodeFact}
    {scope : Scope} {site : Site} {m : Match}
    (hfile : SourceFile.resolve name language source facts scope = .ok file)
    (hsite : site ∈ file.sites) (hm : t.find? file site = some m) : site.Tight := by
  rcases List.mem_cons.1 hsite with rfl | hbelow
  · obtain ⟨children, htree, -⟩ := lossless_of_resolve hfile
    refine absurd ?_ (kind_ne_of_collect (find?_eq_some hm).1)
    rw [SourceFile.root, htree]
    rfl
  · exact tight_of_resolve hfile site hbelow

/-- The captures and the changes of a match tile its node. -/
structure Tiles (t : Template) (m : Match) : Prop where
  /-- Captures lie in the node. -/
  inside : ∀ c ∈ m.captures, m.root.start ≤ c.span.start ∧ c.span.stop ≤ m.root.stop
  /-- No two captures share a byte. -/
  clear : m.captures.Pairwise fun c d => c.span.overlaps d.span = false
  /-- Each change ends before the next one begins. -/
  ascending : StandApart (t.changes m)
  /-- Changes lie in the node. -/
  within : ∀ e ∈ t.changes m, m.root.start ≤ e.span.start ∧ e.span.stop ≤ m.root.stop
  /-- Changes leave captures alone. -/
  apart : ∀ e ∈ t.changes m, ∀ c ∈ m.captures, e.span.Apart c.span
  /-- Each byte of the node is changed or captured. -/
  cover : ∀ x, m.root.start ≤ x → x < m.root.stop →
    (∃ e ∈ t.changes m, e.span.start ≤ x ∧ x < e.span.stop) ∨
      ∃ c ∈ m.captures, c.span.start ≤ x ∧ x < c.span.stop

theorem tiles_of_find? {site : Site} {m : Match} (htight : site.Tight)
    (h : t.find? file site = some m) : t.Tiles m := by
  obtain ⟨hcollect, -, hroot⟩ := find?_eq_some h
  obtain ⟨hinside, hclear⟩ := captures_of_collect htight hcollect
  rw [← hroot] at hinside
  have hperm := List.mergeSort_perm m.captures comesBefore
  have hsorted : ∀ c ∈ m.captures.mergeSort comesBefore,
      m.root.start ≤ c.span.start ∧ c.span.stop ≤ m.root.stop :=
    fun c hc => hinside c (hperm.mem_iff.1 hc)
  have hfree : (m.captures.mergeSort comesBefore).Pairwise
      fun c d => c.span.overlaps d.span = false :=
    hperm.symm.pairwise hclear fun hcd => by rw [Span.overlaps_comm]; exact hcd
  have hdone : ∀ c ∈ m.captures.mergeSort comesBefore, c.span.start < m.root.start →
      c.span.stop ≤ m.root.start :=
    fun c hc hlt => absurd (hsorted c hc).1 (Nat.not_le.2 hlt)
  obtain ⟨hfills, hfilled⟩ := changes_fill t m
  refine ⟨hinside, hclear, standApart_changes t m, ?_, ?_, ?_⟩
  · intro e he
    exact gaps_within m.root.start_le_stop (fun c hc => (hsorted c hc).2) _ (hfills e he)
  · intro e he c hc
    exact gaps_apart (sorted_mergeSort m.captures) hfree hdone _ (hfills e he) c
      (hperm.mem_iff.2 hc)
  · intro x hstart hstop
    rcases gaps_cover hstart hstop (m.captures.mergeSort comesBefore) with ⟨g, hg, hx⟩ | ⟨c, hc, hx⟩
    · obtain ⟨e, he, rfl⟩ := hfilled g hg (by omega)
      exact .inl ⟨e, he, hx⟩
    · exact .inr ⟨c, hperm.mem_iff.1 hc, hx⟩

theorem spliced_single {start : Nat} {result : List Char} {span : Span} {new : List Char}
    (h : Spliced start text [⟨span, String.ofList new⟩] result) :
    ∃ front covered back, text = front ++ covered ++ back ∧
      span.start = start + byteLength front ∧ byteLength covered = span.width ∧
      result = front ++ new ++ back := by
  cases h with
  | @put _ front covered back result _ _ hstart hstop hrest =>
    cases hrest with
    | done =>
      refine ⟨front, covered, back, rfl, hstart, ?_, by rw [String.toList_ofList]⟩
      have hwidth : span.stop = span.start + byteLength covered := hstop
      rw [Span.width]
      omega

/-- **Captures and changes tile a match.**  Captures lie in the node and share no byte; changes lie
between them, from left to right, and cover all the rest.  If there is one more fragment than
captures, and no arguments are omitted, the changes alone turn the node into the fragments with the
captured texts between them, in the order of the file, and keep what stands around the node. -/
theorem changes_tile {name source : String} {language : Language} {facts : List NodeFact}
    {scope : Scope} {site : Site} {m : Match}
    (hfile : SourceFile.resolve name language source facts scope = .ok file)
    (hsite : site ∈ file.sites) (hm : t.find? file site = some m) :
    m.root = site.span ∧ t.Tiles m ∧
    (t.replacement.length = m.captures.length + 1 → (∀ c ∈ m.captures, c.extent ≠ .omitted) →
      ∃ front covered back texts result,
        file.text.toList = front ++ covered ++ back ∧
        byteLength front = site.span.start ∧ byteLength covered = site.span.width ∧
        (m.captures.mergeSort comesBefore).map (fun c => slice? file.text.toList c.span) =
          texts.map some ∧
        (Edits.ofCalls (t.changes m)).applyTo? file.text = some (result, []) ∧
        result.toList = front ++ weave (t.replacement.map String.toList) texts ++ back) := by
  have hstands := (lossless_of_resolve hfile).standsIn hsite
  obtain ⟨-, -, hroot⟩ := find?_eq_some hm
  have htight := tight_of_find? hfile hsite hm
  refine ⟨hroot, tiles_of_find? htight hm, ?_⟩
  intro hlen hkept
  obtain ⟨texts, result, htexts, hresult, hput⟩ := exists_instance hstands hm hkept hlen
  obtain ⟨front, covered, back, htext, hfront, hcovered, hwoven⟩ := spliced_single hput
  exact ⟨front, covered, back, texts, result, htext, by omega, hcovered, htexts, hresult, hwoven⟩

/-! ### A difference -/

def operandFacts : List NodeFact := [
  ⟨.binaryExpr, .ofWidth 0 3, none, none⟩,
  ⟨.referenceExpr, .ofWidth 0 1, none, none⟩,
  ⟨.referenceExpr, .ofWidth 2 1, none, none⟩]

def operandFile : SourceFile :=
  ⟨"", .java, "a-b", .node .sourceFile [operation "a" (.token .minus "-") "b"], .ofList [],
    .ofList [], ⟨.empty, .empty⟩⟩

def operandSite : Site := (operandFile.sites.find? (·.kind == .binaryExpr)).getD operandFile.root

def operandMatch : Match := ⟨.ofWidth 0 3,
  [⟨0, .ofWidth 0 1, .single⟩, ⟨1, .ofWidth 2 1, .single⟩]⟩

/-- The template `x - y ↦ (x + y)` turns `a-b` into `(a+b)`. -/
theorem operands_tiled :
    SourceFile.resolve "" .java "a-b" operandFacts ⟨.empty, .empty⟩ = .ok operandFile ∧
    operandSite ∈ operandFile.sites ∧
    (differenceTemplate ["(", "+", ")"]).find? operandFile operandSite = some operandMatch ∧
    (differenceTemplate ["(", "+", ")"]).Tiles operandMatch ∧
    (Edits.ofCalls ((differenceTemplate ["(", "+", ")"]).changes operandMatch)).applyTo?
      operandFile.text = some ("(a+b)", []) := by
  have hfile : SourceFile.resolve "" .java "a-b" operandFacts ⟨.empty, .empty⟩ =
      .ok operandFile := by
    rw [SourceFile.resolve, Tree.ofDeclarations, List.mergeSort_of_pairwise (by decide)]
    rfl
  have hsite : operandSite ∈ operandFile.sites :=
    List.mem_of_find?_eq_some (p := (·.kind == .binaryExpr)) rfl
  have hcollect : (differenceTemplate ["(", "+", ")"]).collect operandFile []
      (differenceTemplate ["(", "+", ")"]).root operandSite = some operandMatch.captures := by
    rw [collect_of_align rfl rfl]
    simp only [List.singleton_append, List.mapM_cons, List.mapM_nil]
    rw [collect_of_hole rfl, collect_of_hole rfl]
    rfl
  have hm : (differenceTemplate ["(", "+", ")"]).find? operandFile operandSite =
      some operandMatch := by
    rw [find?_eq, hcollect]
    rfl
  obtain ⟨-, htiles, hrest⟩ := changes_tile hfile hsite hm
  refine ⟨hfile, hsite, hm, htiles, ?_⟩
  obtain ⟨front, covered, back, texts, result, htext, hfront, hcovered, htexts, hresult, hwoven⟩ :=
    hrest rfl (by decide)
  obtain rfl : front = [] := byteLength_eq_zero.1 hfront
  have hback : back = [] := by
    have hwidth : byteLength covered = 3 := hcovered
    have hall : 3 = byteLength (covered ++ back) := congrArg byteLength htext
    rw [byteLength_append] at hall
    exact byteLength_eq_zero.1 (by omega)
  have htexts' : texts = [['a'], ['b']] := by
    rw [List.mergeSort_of_pairwise (by decide)] at htexts
    exact (List.map_inj_right fun _ _ => Option.some.inj).1 (htexts.symm.trans (by decide +kernel))
  have hresult' : result = "(a+b)" := by
    rw [← String.toList_inj, hwoven, hback, htexts']
    rfl
  rw [hresult, hresult']

end SourceRename.Template
