import SourceRename.Proofs.Edit.Apart
import SourceRename.Proofs.Fault
import SourceRename.Proofs.Template.Captures
import SourceRename.Template.Change
import SourceRename.Template.Read

/-!
# Matches as instances of the replacement

A replacement is kept as its fragments, the text around the uses of parameters, and a match is
turned into it by writing the fragments into the gaps around the captures.  Both sides are one row,
fragments with texts woven in (`weave`):

* `Parted.spliced`: putting texts in the place of the uses of parameters gives the fragments with
  these texts woven in;
* `spliced_gaps`: writing the fragments into the gaps around captures gives the fragments with the
  captured texts woven in.

The two rows are the same where the `i`-th use of a parameter gets the `i`-th captured text, in the
order of the file (`exists_instance`).  So a use of a parameter gets what was captured for this
parameter if the two sides mention the parameters in the same order, which nobody checks.
-/

namespace SourceRename.Template

/-- Texts put between fragments. -/
def weave : List (List Char) → List (List Char) → List Char
  | f :: fs, x :: xs => f ++ x ++ weave fs xs
  | fs, _ => fs.flatten

def editsOf (spans : List Span) (texts : List (List Char)) : List Edit :=
  spans.zipWith (fun span text => ⟨span, String.ofList text⟩) texts

variable {text : List Char} {start stop : Nat}

/-! ### Fragments of the replacement -/

/-- The text from `start` to `stop`, parted by spans that are left out. -/
inductive Parted (text : List Char) (stop : Nat) : Nat → List Span → List (List Char) → Prop
  | last {start : Nat} {part : List Char} :
      PartAt text start part → start + byteLength part = stop → Parted text stop start [] [part]
  | cons {start : Nat} {part : List Char} {span : Span} {spans : List Span}
      {parts : List (List Char)} :
      PartAt text start part → start + byteLength part = span.start →
      Parted text stop span.stop spans parts → Parted text stop start (span :: spans) (part :: parts)

theorem parted_of_fragments? {holes : List Span} {fragments : List String}
    (h : fragments? text start stop holes = some fragments) :
    Parted text stop start holes (fragments.map String.toList) := by
  have hslice : ∀ {span : Span} {part : List Char}, slice? text span = some part →
      PartAt text span.start part ∧ span.start + byteLength part = span.stop := by
    intro span part hpart
    obtain ⟨before, after, hcs, hb, hp⟩ := slice?_eq_some_iff.1 hpart
    have hspan := span.start_le_stop
    rw [Span.width] at hp
    exact ⟨⟨before, after, hcs, hb⟩, by omega⟩
  induction holes generalizing start fragments with
  | nil =>
    rw [fragments?] at h
    split at h
    · obtain ⟨part, hpart, h⟩ := Option.bind_eq_some_iff.1 h
      obtain rfl := Option.some.inj h
      rw [List.map_singleton, String.toList_ofList]
      exact .last (hslice hpart).1 (hslice hpart).2
    · simp at h
  | cons hole holes ih =>
    rw [fragments?] at h
    split at h
    · obtain ⟨part, hpart, h⟩ := Option.bind_eq_some_iff.1 h
      obtain ⟨parts, hparts, h⟩ := Option.bind_eq_some_iff.1 h
      obtain rfl := Option.some.inj h
      rw [List.map_cons, String.toList_ofList]
      exact .cons (hslice hpart).1 (hslice hpart).2 (ih hparts)
    · simp at h

theorem Parted.length_eq {spans : List Span} {parts : List (List Char)}
    (h : Parted text stop start spans parts) : parts.length = spans.length + 1 := by
  induction h with
  | last => rfl
  | cons _ _ _ ih => rw [List.length_cons, List.length_cons, ih]

/-- **Texts put in the place of the spans** that part a text are woven into its parts. -/
theorem Parted.spliced {spans : List Span} {parts : List (List Char)}
    (h : Parted text stop start spans parts) :
    ∃ body, PartAt text start body ∧ start + byteLength body = stop ∧
      ∀ texts : List (List Char), texts.length = spans.length →
        Spliced start body (editsOf spans texts) (weave parts texts) := by
  induction h with
  | @last start part hpart hstop =>
    refine ⟨part, hpart, hstop, ?_⟩
    intro texts htexts
    obtain rfl := List.length_eq_zero_iff.1 htexts
    have := Spliced.done start part
    simpa [editsOf, weave] using this
  | @cons start part span spans parts hpart hstart _ ih =>
    obtain ⟨body, ⟨us, vs, htext, hus⟩, hstop, hspliced⟩ := ih
    obtain ⟨xs, ys, htext', hxs⟩ := hpart
    -- what the span covers stands between the part and the rest
    have hcut : xs ++ part ++ ys = us ++ (body ++ vs) := by
      rw [← htext', htext, List.append_assoc]
    have hspan := span.start_le_stop
    obtain ⟨covered, hus', hys⟩ := prefix_of_byteLength_le hcut (by
      rw [byteLength_append]
      omega)
    have hcovered : span.stop = span.start + byteLength covered := by
      have := congrArg byteLength hus'
      simp only [byteLength_append] at this
      omega
    refine ⟨part ++ covered ++ body, ⟨xs, vs, ?_, hxs⟩, ?_, ?_⟩
    · rw [htext', hys]
      simp
    · simp only [byteLength_append]
      omega
    · intro texts htexts
      cases texts with
      | nil => simp at htexts
      | cons x texts =>
        have hrest := hspliced texts (by simpa using htexts)
        have := Spliced.put (e := ⟨span, String.ofList x⟩) hstart.symm hcovered hrest
        simpa [editsOf, weave] using this

theorem Parted.spliced_site {site : Site} {spans : List Span} {parts texts : List (List Char)}
    (h : Parted text site.span.stop site.span.start spans parts) (hsite : site.StandsIn text)
    (hlen : texts.length = spans.length) :
    Spliced site.start (Tree.textAll site.children) (editsOf spans texts) (weave parts texts) := by
  obtain ⟨body, hpart, hbody, hspliced⟩ := h.spliced
  obtain rfl : body = Tree.textAll site.children := by
    refine hpart.unique hsite.part ?_
    have := site.stop_eq
    omega
  exact hspliced texts hlen

/-! ### Gaps around captures -/

theorem spliced_gap {gap kept body result : List Char} {es : List Edit} (f : List Char)
    (hstop : stop = start + byteLength gap)
    (h : Spliced (stop + byteLength kept) body es result) :
    Spliced start (gap ++ (kept ++ body)) (⟨.upTo start stop, String.ofList f⟩ :: es)
      (f ++ (kept ++ result)) := by
  have hmax : max start stop = stop := Nat.max_eq_right (by omega)
  have hskip : Spliced (max start stop) (kept ++ body) es (kept ++ result) := by
    rw [hmax]
    exact h.skip kept
  have hput : Spliced start (gap ++ (kept ++ body)) (⟨.upTo start stop, String.ofList f⟩ :: es)
      ((String.ofList f).toList ++ (kept ++ result)) :=
    Spliced.first rfl (hmax.trans hstop) hskip
  rwa [String.toList_ofList] at hput

/-- Fragments written into the gaps around captures, in a part of a text that begins at `start`. -/
theorem spliced_gaps {before rest : List Char} {captures : List Capture}
    {fragments : List (List Char)} (htext : before ++ rest = text)
    (hbefore : byteLength before = start) (hlen : fragments.length = captures.length + 1)
    (horder : captures.Pairwise fun c d => c.span.stop ≤ d.span.start)
    (hin : ∀ c ∈ captures, start ≤ c.span.start ∧ c.span.stop ≤ stop)
    (hcut : ∀ c ∈ captures, Cut text c.span.start ∧ Cut text c.span.stop)
    (hle : start ≤ stop) (hstop : Cut text stop) :
    ∃ texts body after, captures.map (fun c => slice? text c.span) = texts.map some ∧
      rest = body ++ after ∧ start + byteLength body = stop ∧
      Spliced start body (editsOf (gaps start stop captures) fragments)
        (weave fragments texts) := by
  induction captures generalizing before rest start fragments with
  | nil =>
    subst htext hbefore
    obtain ⟨body, after, rfl, hbody⟩ := hstop.rest hle
    obtain ⟨f, rfl⟩ := List.length_eq_one_iff.1 hlen
    refine ⟨[], body, after, rfl, rfl, hbody.symm, ?_⟩
    have hput : Spliced (byteLength before) (body ++ ([] ++ []))
        [⟨.upTo (byteLength before) stop, String.ofList f⟩] (f ++ ([] ++ [])) :=
      spliced_gap f hbody (.done _ [])
    simpa [gaps, editsOf, weave] using hput
  | cons c cs ih =>
    subst htext hbefore
    obtain ⟨hhead, hcs⟩ := List.pairwise_cons.1 horder
    obtain ⟨⟨hstart, hstop'⟩, hin⟩ := List.forall_mem_cons.1 hin
    obtain ⟨⟨hcut1, hcut2⟩, hcut⟩ := List.forall_mem_cons.1 hcut
    obtain ⟨f, fs, rfl⟩ := List.exists_cons_of_length_eq_add_one hlen
    have hspan := c.span.start_le_stop
    obtain ⟨gap, x, rest, rfl, hgap, hx⟩ := hcut1.covered hcut2 hstart
    have hat : byteLength (before ++ gap ++ x) = c.span.stop := by
      simp only [byteLength_append]
      omega
    have hwhole : before ++ gap ++ x ++ rest = before ++ (gap ++ x ++ rest) := by simp
    have hlen : fs.length = cs.length + 1 := by simpa using hlen
    obtain ⟨texts, body, after, htexts, rfl, hbody, hspliced⟩ :=
      ih hwhole hat hlen hcs (fun d hd => ⟨hhead d hd, (hin d hd).2⟩) hcut hstop'
    refine ⟨x :: texts, gap ++ x ++ body, after, ?_, by simp, ?_, ?_⟩
    · have hslice : slice? (before ++ (gap ++ x ++ (body ++ after))) c.span = some x :=
        slice?_eq_some_iff.2 ⟨before ++ gap, body ++ after, by simp, by
          rw [byteLength_append, hgap], by
          rw [Span.width]
          omega⟩
      rw [List.map_cons, List.map_cons, htexts, hslice]
    · simp only [byteLength_append]
      omega
    · -- the gap in front of the capture, and the captured text left as it is
      have hgaps : gaps (byteLength before) stop (c :: cs) =
          .upTo (byteLength before) c.span.start :: gaps c.span.stop stop cs := by
        rw [gaps, Nat.max_eq_right (Nat.le_trans hstart hspan)]
      rw [show c.span.stop = c.span.start + byteLength x by omega] at hspliced
      have hput := spliced_gap f hgap hspliced
      rw [← hx] at hput
      rw [hgaps]
      simpa [editsOf, weave] using hput

/-! ### The changes of a match -/

theorem length_gaps (start stop : Nat) (captures : List Capture) :
    (gaps start stop captures).length = captures.length + 1 := by
  induction captures generalizing start with
  | nil => rfl
  | cons c cs ih => rw [gaps, List.length_cons, List.length_cons, ih]

theorem length_dropSeparators (captures : List Capture) (fragments : List (List Char)) :
    (dropSeparators captures fragments).length = fragments.length := by
  fun_induction dropSeparators captures fragments <;> simp_all

theorem dropSeparators_of_kept {captures : List Capture} (fragments : List (List Char))
    (hkept : ∀ c ∈ captures, c.extent ≠ .omitted) :
    dropSeparators captures fragments = fragments := by
  induction captures generalizing fragments with
  | nil => rw [dropSeparators.eq_def]
  | cons c cs ih =>
    obtain ⟨hc, hcs⟩ := List.forall_mem_cons.1 hkept
    rcases fragments with _ | ⟨f, _ | ⟨g, fs⟩⟩
    · rfl
    · rfl
    · rw [dropSeparators, if_neg hc, ih _ hcs]

theorem resize_of_length {α : Type} {filling : α} {length : Nat} {xs : List α}
    (h : xs.length = length) : resize filling length xs = xs := by
  subst h
  rw [resize, List.take_length, Nat.sub_self, List.replicate_zero, List.append_nil]

theorem comesBefore_iff {a b : Capture} : comesBefore a b = true ↔
    a.span.start < b.span.start ∨ a.span.start = b.span.start ∧ a.span.stop ≤ b.span.stop := by
  rw [comesBefore, Bool.not_eq_true', Bool.eq_false_iff, ne_eq, Span.precedes_iff]
  omega

theorem sorted_mergeSort (captures : List Capture) :
    (captures.mergeSort comesBefore).Pairwise fun c d => comesBefore c d = true := by
  apply List.pairwise_mergeSort
  · intro a b c hab hbc
    rw [comesBefore_iff] at *
    omega
  · intro a b
    rw [Bool.or_eq_true, comesBefore_iff, comesBefore_iff]
    omega

theorem pairwise_mergeSort {outer : Span} {captures : List Capture}
    (h : Laid outer (captures.map (·.span))) :
    (captures.mergeSort comesBefore).Pairwise fun c d => c.span.stop ≤ d.span.start := by
  have hapart : (captures.mergeSort comesBefore).Pairwise fun c d => c.span.Apart d.span := by
    refine (List.mergeSort_perm captures comesBefore).symm.pairwise (List.pairwise_map.1 h.apart) ?_
    exact fun hab => Or.symm hab
  refine (sorted_mergeSort captures).imp₂ ?_ hapart
  intro c d hcd hap
  have := c.span.start_le_stop
  have := d.span.start_le_stop
  rw [comesBefore_iff] at hcd
  rcases hap with h | h
  · exact h
  · omega

variable {t : Template} {file : SourceFile} {site : Site} {m : Match}

theorem find?_eq_some (h : t.find? file site = some m) :
    t.collect file [] t.root site = some m.captures ∧
      consistent file.text.toList [] m.captures = true ∧ m.root = site.span := by
  rw [find?_eq] at h
  obtain ⟨captures, hcollect, h⟩ := Option.bind_eq_some_iff.1 h
  split at h
  · next hconsistent =>
    obtain rfl := Option.some.inj h
    exact ⟨hcollect, hconsistent, rfl⟩
  · simp at h

/-- **A match is turned into the fragments with the captured texts woven in**, in the order of the
file, if there are as many fragments as gaps and captures are laid out in the node.  Next to a
capture of no arguments a separator is dropped from the fragments. -/
theorem exists_instance_of_laid (hsite : site.StandsIn file.text.toList)
    (hm : t.find? file site = some m) (hlaid : Laid site.span (m.captures.map (·.span)))
    (hcuts : ∀ c ∈ m.captures,
      Cut file.text.toList c.span.start ∧ Cut file.text.toList c.span.stop)
    (hlen : t.replacement.length = m.captures.length + 1) :
    ∃ texts result, (m.captures.mergeSort comesBefore).map
        (fun c => slice? file.text.toList c.span) = texts.map some ∧
      (Edits.ofCalls (t.changes m)).applyTo? file.text = some (result, []) ∧
      Spliced 0 file.text.toList
        [⟨site.span, String.ofList (weave (dropSeparators (m.captures.mergeSort comesBefore)
          (t.replacement.map String.toList)) texts)⟩]
        result.toList := by
  obtain ⟨-, -, hroot⟩ := find?_eq_some hm
  have hperm := List.mergeSort_perm m.captures comesBefore
  have hmem : ∀ c ∈ m.captures.mergeSort comesBefore, c ∈ m.captures :=
    fun c hc => hperm.mem_iff.1 hc
  have hin : ∀ c ∈ m.captures.mergeSort comesBefore,
      site.span.start ≤ c.span.start ∧ c.span.stop ≤ site.span.stop :=
    fun c hc => hlaid.inside _ (List.mem_map_of_mem (hmem c hc))
  have hgaps : (t.replacement.map String.toList).length =
      (gaps site.span.start site.span.stop (m.captures.mergeSort comesBefore)).length := by
    rw [List.length_map, hlen, length_gaps, hperm.length_eq]
  generalize hfragments : dropSeparators (m.captures.mergeSort comesBefore)
    (t.replacement.map String.toList) = fragments
  have hcount : fragments.length = (m.captures.mergeSort comesBefore).length + 1 := by
    rw [← hfragments, length_dropSeparators, hgaps, length_gaps]
  obtain ⟨before, after, htext, hbefore⟩ := hsite.part
  obtain ⟨texts, body, tail, htexts, hrest, hbody, hspliced⟩ :=
    spliced_gaps (by rw [htext, List.append_assoc]) hbefore hcount (pairwise_mergeSort hlaid) hin
      (fun c hc => hcuts c (hmem c hc)) site.span.start_le_stop hsite.cut_stop
  have hwhole : file.text.toList = before ++ (body ++ tail) := by
    rw [htext, List.append_assoc, hrest]
  -- what stands around the node is kept
  have hrow : Spliced 0 file.text.toList
      (editsOf (gaps site.span.start site.span.stop (m.captures.mergeSort comesBefore)) fragments)
      (before ++ (weave fragments texts ++ tail)) := by
    rw [hwhole]
    refine Spliced.skip before ?_
    rw [Nat.zero_add, hbefore]
    have := hspliced.append (.done _ tail)
    rwa [List.append_nil] at this
  have hchanges : t.changes m = (editsOf
      (gaps site.span.start site.span.stop (m.captures.mergeSort comesBefore))
      fragments).filter fun e => !(e.span.isEmpty && e.text.isEmpty) := by
    rw [changes, hroot, resize_of_length hgaps, hfragments]
    rfl
  refine ⟨texts, _, htexts, Edits.applyTo?_of_spliced (hchanges ▸ hrow.filter), ?_⟩
  rw [String.toList_ofList, hwhole]
  have := Spliced.put (e := ⟨site.span, String.ofList (weave fragments texts)⟩)
    (show site.span.start = 0 + byteLength before by rw [Nat.zero_add]; exact hbefore.symm)
    hbody.symm (.done _ tail)
  simpa using this

/-- If all captures take something, the fragments are those of the template. -/
theorem exists_instance (hsite : site.StandsIn file.text.toList)
    (hm : t.find? file site = some m) (hkept : ∀ c ∈ m.captures, c.extent ≠ .omitted)
    (hlen : t.replacement.length = m.captures.length + 1) :
    ∃ texts result, (m.captures.mergeSort comesBefore).map
        (fun c => slice? file.text.toList c.span) = texts.map some ∧
      (Edits.ofCalls (t.changes m)).applyTo? file.text = some (result, []) ∧
      Spliced 0 file.text.toList
        [⟨site.span, String.ofList (weave (t.replacement.map String.toList) texts)⟩]
        result.toList := by
  obtain ⟨hlaid, hsound⟩ := laid_of_collect (find?_eq_some hm).1
  rw [kept_of_forall hkept] at hlaid hsound
  have hsorted : ∀ c ∈ m.captures.mergeSort comesBefore, c.extent ≠ .omitted :=
    fun c hc => hkept c ((List.mergeSort_perm m.captures comesBefore).mem_iff.1 hc)
  rw [← dropSeparators_of_kept (t.replacement.map String.toList) hsorted]
  exact exists_instance_of_laid hsite hm hlaid (fun c hc => (hsound c hc).cut hsite) hlen

end SourceRename.Template
