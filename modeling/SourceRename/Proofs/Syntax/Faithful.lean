import SourceRename.Proofs.Syntax.Geometry

/-!
# A tree holds what was declared

A tree that was built for a text has the text as its tokens and the declarations as its nodes, and
one node lies around another where its span does (`faithful_of_ofDeclarations`).  Spans alone do
not tell which of two nodes is the outer one if they cover the same bytes, so the declarations are
numbered: the one declared first is the outer one.  An empty node stands at an offset and belongs
to what goes on behind this offset, not to what ends there.

The tree under construction is again read from left to right (`Outline.finished`).  Now its open
nodes count: `started` lists all nodes opened so far, in the order in which they were opened.
Closing a node leaves this row as it is and opening one moves a declaration from those to come to
its end, so the row with those to come is always the sorted list of declarations
(`Threaded.sweep`).  Behind the last offset nothing is to come and nothing is open, and the row is
the preorder of the tree.

A node is closed right behind a token or behind a node that ends there too, so no node ends with an
empty one (`Tree.Tight`).
-/

namespace SourceRename

theorem Span.ext_of_eq {a b : Span} (hstart : a.start = b.start) (hstop : a.stop = b.stop) :
    a = b := by
  cases a
  cases b
  simp_all

def Site.declaration (s : Site) : Declaration := ⟨s.kind, s.span⟩

namespace Tree

/-! ### The nodes of a tree as declarations -/

mutual

def declared (start : Nat) : Tree → List Declaration
  | .token _ _ => []
  | .node kind children => ⟨kind, .ofWidth start (widthAll children)⟩ :: declaredAll start children

def declaredAll (start : Nat) : List Tree → List Declaration
  | [] => []
  | t :: ts => t.declared start ++ declaredAll (start + t.width) ts

end

theorem declaredAll_append (start : Nat) (xs ys : List Tree) :
    declaredAll start (xs ++ ys) =
      declaredAll start xs ++ declaredAll (start + widthAll xs) ys := by
  induction xs generalizing start with
  | nil => simp [declaredAll, widthAll]
  | cons x xs ih => simp [declaredAll, widthAll, ih, Nat.add_assoc]

theorem declaredAll_singleton (start : Nat) (t : Tree) : declaredAll start [t] = t.declared start := by
  rw [declaredAll, declaredAll, List.append_nil]

mutual

theorem map_preorderTree (above : List Place) (start : Nat) :
    (t : Tree) → (Site.preorderTree above start t).map Site.declaration = t.declared start
  | .token _ _ => rfl
  | .node kind children => by
    rw [Site.preorderTree, declared, List.map_cons, map_preorderForest]
    rfl

theorem map_preorderForest (above : List Place) (start : Nat) :
    (ts : List Tree) →
      (Site.preorderForest above start ts).map Site.declaration = declaredAll start ts
  | [] => rfl
  | t :: ts => by
    rw [Site.preorderForest, declaredAll, List.map_append, map_preorderTree above start t,
      map_preorderForest above _ ts]

end

/-- No node of the tree ends with an empty node. -/
inductive Tight : Tree → Prop
  | token (kind : Kind) (text : String) : Tight (.token kind text)
  | node (kind : Kind) {children : List Tree} :
      (∀ t ∈ children.getLast?, 0 < t.width) → (∀ t ∈ children, Tight t) →
      Tight (.node kind children)

end Tree

namespace Outline

/-! ### Opened nodes -/

/-- The nodes opened so far, as they were declared: in front of each open node, the open node
itself, and in the innermost one. -/
def started (current : List Tree) : List Frame → List Declaration
  | [] => Tree.declaredAll 0 current.reverse
  | f :: fs =>
    let start := Tree.widthAll (finished f.before fs)
    started f.before fs ++
      ⟨f.kind, .upTo start f.stop⟩ :: Tree.declaredAll start current.reverse

theorem started_cons (t : Tree) (current : List Tree) (frames : List Frame) :
    started (t :: current) frames =
      started current frames ++ t.declared (Tree.widthAll (finished current frames)) := by
  cases frames with
  | nil =>
    rw [started, started, finished, List.reverse_cons, Tree.declaredAll_append, Nat.zero_add,
      Tree.declaredAll_singleton]
  | cons f fs =>
    rw [started, started, finished, List.reverse_cons, Tree.declaredAll_append,
      Tree.widthAll_append, Tree.declaredAll_singleton, List.append_assoc, List.cons_append]

/-- The innermost open node ends with something that is not empty. -/
def EndsWide (current : List Tree) : Prop := ∃ t, current.head? = some t ∧ 0 < t.width

/-- The nodes opened so far are the given ones, and the tree is finished up to the offset. -/
structure Threaded (done : List Declaration) (offset : Nat) (current : List Tree)
    (frames : List Frame) : Prop where
  started : started current frames = done
  width : Tree.widthAll (finished current frames) = offset
  tight : ∀ t ∈ finished current frames, t.Tight

namespace Threaded

variable {done ds : List Declaration} {offset : Nat} {current : List Tree} {frames : List Frame}

theorem nil : Threaded [] 0 [] [] := ⟨rfl, rfl, by simp [finished]⟩

/-- A tree without open nodes goes to the end of the row. -/
theorem cons (h : Threaded done offset current frames) {t : Tree} (ht : t.Tight) :
    Threaded (done ++ t.declared offset) (offset + t.width) (t :: current) frames := by
  refine ⟨?_, ?_, ?_⟩
  · rw [started_cons, h.started, h.width]
  · rw [finished_cons, Tree.widthAll_append, h.width]
    rfl
  · rw [finished_cons]
    exact List.forall_mem_append.2 ⟨h.tight, List.forall_mem_singleton.2 ht⟩

theorem closeFrame {f : Frame} (h : Threaded done offset current (f :: frames))
    (hstop : f.stop = offset) (hwide : EndsWide current) :
    Threaded done offset (.node f.kind current.reverse :: f.before) frames ∧
      EndsWide (.node f.kind current.reverse :: f.before) := by
  obtain ⟨t, ht, hpos⟩ := hwide
  have hwidth : Tree.widthAll (finished f.before frames) + Tree.widthAll current.reverse = offset := by
    rw [← Tree.widthAll_append]
    exact h.width
  have hspan : Span.ofWidth (Tree.widthAll (finished f.before frames))
      (Tree.widthAll current.reverse) =
        .upTo (Tree.widthAll (finished f.before frames)) f.stop := by
    refine Span.ext_of_eq rfl ?_
    show _ = max _ f.stop
    rw [hstop, ← hwidth, Nat.max_eq_right (Nat.le_add_right _ _)]
    rfl
  have htight := List.forall_mem_append.1 h.tight
  refine ⟨⟨?_, ?_, ?_⟩, ?_⟩
  · rw [started_cons, Tree.declared, hspan, ← h.started]
    rfl
  · rw [finished_cons, Tree.widthAll_append]
    exact hwidth
  · rw [finished_cons]
    refine List.forall_mem_append.2 ⟨htight.1, List.forall_mem_singleton.2 (.node _ ?_ htight.2)⟩
    rw [List.getLast?_reverse, ht]
    rintro _ ⟨⟩
    exact hpos
  · refine ⟨_, rfl, ?_⟩
    obtain ⟨rest, rfl⟩ := List.head?_eq_some_iff.1 ht
    rw [Tree.width, List.reverse_cons, Tree.widthAll_append]
    show 0 < _ + (t.width + 0)
    omega

theorem close {r : List Tree × List Frame} (h : Threaded done offset current frames)
    (hwide : frames = [] ∨ EndsWide current) (hr : close offset current frames = .ok r) :
    Threaded done offset r.1 r.2 := by
  induction frames generalizing current with
  | nil =>
    obtain rfl := Except.ok.inj hr
    exact h
  | cons f fs ih =>
    rw [Outline.close] at hr
    split at hr
    · obtain rfl := Except.ok.inj hr
      exact h
    · split at hr
      · simp at hr
      · obtain ⟨h, hwide⟩ := h.closeFrame (by omega) (hwide.resolve_left (List.cons_ne_nil f fs))
        exact ih h (.inr hwide) hr

theorem openFrame (h : Threaded done offset current frames) {d : Declaration}
    (hstart : d.span.start = offset) :
    Threaded (done ++ [d]) offset [] (⟨d.kind, d.span.stop, current⟩ :: frames) := by
  refine ⟨?_, ?_, ?_⟩
  · have hspan : Span.upTo offset d.span.stop = d.span := by
      refine Span.ext_of_eq hstart.symm (Nat.max_eq_right ?_)
      rw [← hstart]
      exact d.span.start_le_stop
    rw [Outline.started, h.started, h.width, hspan]
    rfl
  · rw [finished, List.reverse_nil, List.append_nil]
    exact h.width
  · rw [finished, List.reverse_nil, List.append_nil]
    exact h.tight

theorem emptyNode (h : Threaded done offset current frames) {d : Declaration}
    (hstart : d.span.start = offset) (hempty : d.span.isEmpty = true) :
    Threaded (done ++ [d]) offset (.node d.kind [] :: current) frames := by
  have hd : (Tree.node d.kind []).declared offset = [d] := by
    have hstop : d.span.start = d.span.stop := beq_iff_eq.1 hempty
    have hspan : Span.ofWidth offset (Tree.widthAll []) = d.span :=
      Span.ext_of_eq hstart.symm (hstart.symm.trans hstop)
    rw [Tree.declared, hspan]
    rfl
  rw [← hd]
  exact h.cons (.node _ (by simp) (by simp))

theorem openAt {p : Path} (h : Threaded done offset current frames)
    (hp : openAt offset current frames ds = .ok p) :
    ∃ opened, ds = opened ++ p.pending ∧
      Threaded (done ++ opened) offset p.current p.frames := by
  induction ds generalizing done current frames with
  | nil =>
    obtain rfl := Except.ok.inj hp
    exact ⟨[], rfl, by rwa [List.append_nil]⟩
  | cons d ds ih =>
    -- one more node is opened, and the others behind it
    have hstep : ∀ {current frames}, Threaded (done ++ [d]) offset current frames →
        Outline.openAt offset current frames ds = .ok p →
        ∃ opened, d :: ds = opened ++ p.pending ∧
          Threaded (done ++ opened) offset p.current p.frames := by
      intro current frames h hp
      obtain ⟨opened, hds, h⟩ := ih h hp
      exact ⟨d :: opened, by rw [hds, List.cons_append], by rwa [List.append_assoc] at h⟩
    rw [Outline.openAt] at hp
    split at hp
    · obtain rfl := Except.ok.inj hp
      exact ⟨[], rfl, by rwa [List.append_nil]⟩
    · split at hp
      · simp at hp
      · have hstart : d.span.start = offset := by omega
        split at hp
        · simp at hp
        · split at hp
          · next hempty => exact hstep (h.emptyNode hstart hempty) hp
          · exact hstep (h.openFrame hstart) hp

theorem settle {p q : Path} (h : Threaded done offset p.current p.frames)
    (hwide : p.frames = [] ∨ EndsWide p.current) (hq : p.settle offset = .ok q) :
    ∃ opened, p.pending = opened ++ q.pending ∧
      Threaded (done ++ opened) offset q.current q.frames := by
  obtain ⟨⟨current, frames⟩, hclose, hopen⟩ := bind_eq_ok_iff.1 hq
  exact (h.close hwide hclose).openAt hopen

/-- Threading tokens opens declarations in their order. -/
theorem sweep {start stop : Nat} {ts : List Token} {p q : Path}
    (hside : SideBySide start ts stop) (h : Threaded done start p.current p.frames)
    (hwide : p.frames = [] ∨ EndsWide p.current) (hq : sweep p ts stop = .ok q) :
    ∃ opened, p.pending = opened ++ q.pending ∧
      Threaded (done ++ opened) stop q.current q.frames := by
  induction hside generalizing done p with
  | nil offset => exact h.settle hwide hq
  | @cons t ts stop ht _ ih =>
    rw [sweep_cons] at hq
    obtain ⟨r, hr, hq⟩ := bind_eq_ok_iff.1 hq
    obtain ⟨opened, hpending, h⟩ := h.settle hwide hr
    have htoken : Threaded (done ++ opened) t.stop (.token t.kind t.text :: r.current) r.frames := by
      have := h.cons (.token t.kind t.text)
      rwa [Tree.declared, List.append_nil] at this
    have hpos : 0 < (Tree.token t.kind t.text).width := by
      have := Token.start_lt_stop ht
      rw [Token.stop] at this
      rw [Tree.width]
      omega
    obtain ⟨opened', hpending', h⟩ := ih htoken (.inr ⟨_, rfl, hpos⟩) hq
    refine ⟨opened ++ opened', ?_, by rwa [List.append_assoc] at h⟩
    rw [hpending, show r.pending = _ from hpending', List.append_assoc]

end Threaded

end Outline

/-! ### Nodes without an empty end -/

namespace Site

variable {s q c : Site}

theorem node_mem_of_mem_elementsFrom {above : List Place} {start : Nat} {ts : List Tree}
    (h : Element.node c ∈ elementsFrom above start ts) : Tree.node c.kind c.children ∈ ts := by
  induction ts generalizing start with
  | nil => simp [elementsFrom] at h
  | cons t ts ih =>
    rcases List.mem_cons.1 h with h | h
    · cases t with
      | token => simp at h
      | node =>
        obtain rfl := Element.node.inj h
        exact List.mem_cons_self
    · exact List.mem_cons_of_mem t (ih h)

/-- No node from here on downwards ends with an empty node. -/
def Tight (s : Site) : Prop := (Tree.node s.kind s.children).Tight

theorem Tight.of_mem_nodes (h : s.Tight) (hc : c ∈ s.nodes) : c.Tight := by
  cases h with
  | node _ _ hall => exact hall _ (node_mem_of_mem_elementsFrom (mem_nodes_iff.1 hc))

theorem Tight.of_mem_preorder (h : s.Tight) (hq : q ∈ s.preorder) : q.Tight := by
  induction s using rec_nodes with
  | h s ih =>
    rcases mem_preorder_iff.1 hq with rfl | ⟨c, hc, hq⟩
    · exact h
    · exact ih c hc (h.of_mem_nodes hc) hq

theorem start_lt_of_mem_elementsFrom {above : List Place} {start : Nat} {ts : List Tree}
    (hlast : ∀ t ∈ ts.getLast?, 0 < t.width) {e : Element} (h : e ∈ elementsFrom above start ts) :
    e.span.start < start + Tree.widthAll ts := by
  induction ts generalizing start e with
  | nil => simp [elementsFrom] at h
  | cons t ts ih =>
    obtain ⟨f, hcons, hstart, -⟩ := elementsFrom_cons above start t ts
    rw [hcons] at h
    rw [Tree.widthAll]
    cases ts with
    | nil =>
      have hpos : 0 < t.width := hlast t rfl
      obtain rfl := List.mem_singleton.1 h
      omega
    | cons u us =>
      have hlast' : ∀ v ∈ (u :: us).getLast?, 0 < v.width := by
        rwa [List.getLast?_cons_cons] at hlast
      rcases List.mem_cons.1 h with rfl | h
      · -- what starts behind this child starts in front of the end
        obtain ⟨g, hcons, hgstart, -⟩ := elementsFrom_cons above (start + t.width) u us
        have hg : g ∈ elementsFrom above (start + t.width) (u :: us) := hcons ▸ List.mem_cons_self
        have := ih hlast' hg
        omega
      · have := ih hlast' h
        omega

theorem Tight.start_lt_of_mem_elements (h : s.Tight) {e : Element} (he : e ∈ s.elements) :
    e.span.start < s.span.stop := by
  cases h with
  | node _ hlast _ => exact start_lt_of_mem_elementsFrom hlast he

theorem Tight.start_lt (h : s.Tight) (hq : q ∈ s.below) : q.span.start < s.span.stop := by
  induction s using rec_nodes with
  | h s ih =>
    obtain ⟨c, hc, hqc⟩ := mem_below_iff.1 hq
    rcases List.mem_cons.1 hqc with rfl | hqc
    · exact h.start_lt_of_mem_elements (mem_nodes_iff.1 hc)
    · exact Nat.lt_of_lt_of_le (ih c hc (h.of_mem_nodes hc) hqc) (within_of_mem_nodes hc).2

theorem Tight.children_eq_nil (h : s.Tight) (hempty : s.span.isEmpty = true) :
    s.children = [] := by
  have hzero : s.span.start = s.span.stop := beq_iff_eq.1 hempty
  cases hts : s.children with
  | nil => rfl
  | cons t ts =>
    obtain ⟨e, hcons, hstart, -⟩ := elementsFrom_cons s.ancestors s.start t ts
    have he : e ∈ s.elements := by
      rw [elements, hts, hcons]
      exact List.mem_cons_self
    have hlt := h.start_lt_of_mem_elements he
    have hge : s.span.start = s.start := rfl
    omega

end Site

/-! ### Trees -/

open Outline

/-- A tree comes from declarations that were all opened and closed again. -/
theorem threaded_of_ofDeclarations {text : String} {nodes : List Declaration} {tree : Tree}
    (h : Tree.ofDeclarations text nodes = .ok tree) :
    ∃ children, tree = .node .sourceFile children ∧
      Tree.declaredAll 0 children = nodes.mergeSort comesFirst ∧ ∀ t ∈ children, t.Tight := by
  obtain ⟨hcheck, p, hp, hframes, rfl⟩ := ofDeclarations_eq_ok h
  have hinside : ∀ d ∈ nodes.mergeSort comesFirst, d.span.stop ≤ text.utf8ByteSize :=
    fun d hd => (check_eq_ok_iff.1 (hcheck d (List.mem_mergeSort.1 hd))).2
  have hsettled := (sweep_iff (inOrder_mergeSort nodes) hinside (sideBySide_tokenize text)
    (Nat.zero_le _) (settled_start _)).2 p hp
  have hpending : p.pending = [] := by
    apply List.eq_nil_iff_forall_not_mem.2
    intro d hd
    obtain ⟨hd, hle⟩ := hsettled.mem_pending_iff.1 hd
    have := hinside d hd
    have := d.span.start_le_stop
    omega
  obtain ⟨opened, hopened, hthreaded⟩ := Threaded.nil.sweep (sideBySide_tokenize text)
    (p := ⟨[], [], nodes.mergeSort comesFirst⟩) (.inl rfl) hp
  rw [hframes, List.nil_append] at hthreaded
  rw [hpending, List.append_nil] at hopened
  exact ⟨p.current.reverse, rfl, hthreaded.started.trans hopened.symm, hthreaded.tight⟩

theorem map_below_of_ofDeclarations {text : String} {nodes : List Declaration} {tree : Tree}
    (h : Tree.ofDeclarations text nodes = .ok tree) :
    (Site.root tree).below.map Site.declaration = nodes.mergeSort comesFirst := by
  obtain ⟨children, rfl, hdeclared, -⟩ := threaded_of_ofDeclarations h
  exact (Tree.map_preorderForest _ 0 children).trans hdeclared

/-! ### Ancestry -/

/-- A declaration lies around another one, each with its number in the list: it covers all bytes of
it, and was declared before it where both cover the same.  An empty span has no byte to cover; what
goes on behind its offset lies around it. -/
def Declaration.Encloses (a b : Declaration × Nat) : Prop :=
  if b.1.span.isEmpty then a.1.span.start ≤ b.1.span.start ∧ b.1.span.start < a.1.span.stop
  else a.1.span.start ≤ b.1.span.start ∧ b.1.span.stop ≤ a.1.span.stop ∧
    (a.1.span = b.1.span → a.2 < b.2)

/-- Sorting keeps declarations with the same span in their order. -/
theorem zipIdxLE_comesFirst_iff {a b : Declaration × Nat} :
    List.zipIdxLE comesFirst a b = true ↔ a.1.span.start < b.1.span.start ∨
      a.1.span.start = b.1.span.start ∧
        (b.1.span.stop < a.1.span.stop ∨ b.1.span.stop = a.1.span.stop ∧ a.2 ≤ b.2) := by
  rw [List.zipIdxLE]
  split
  · next hab =>
    rw [comesFirst_iff] at hab
    split
    · next hba =>
      rw [comesFirst_iff] at hba
      rw [decide_eq_true_eq]
      omega
    · next hba =>
      rw [comesFirst_iff] at hba
      exact iff_of_true rfl (by omega)
  · next hab =>
    rw [comesFirst_iff] at hab
    exact iff_of_false Bool.false_ne_true (by omega)

namespace Site

variable {p q : Site} {i j : Nat}

/-- Of two nodes in their order, the first one lies around the second one where its span does. -/
theorem mem_below_iff_encloses (hp : p.Tight) (hlisted : q ∈ p.below ∨ p.span.stop ≤ q.span.start)
    (hsorted : List.zipIdxLE comesFirst (p.declaration, i) (q.declaration, j) = true)
    (hne : i ≠ j) :
    q ∈ p.below ↔ Declaration.Encloses (p.declaration, i) (q.declaration, j) := by
  rw [Declaration.Encloses]
  show _ ↔ if q.span.isEmpty = true then p.span.start ≤ q.span.start ∧ q.span.start < p.span.stop
    else p.span.start ≤ q.span.start ∧ q.span.stop ≤ p.span.stop ∧ (p.span = q.span → i < j)
  have hspan := q.span.start_le_stop
  constructor
  · intro hq
    have hin := within_of_mem_below hq
    split
    · exact ⟨hin.1, hp.start_lt hq⟩
    · refine ⟨hin.1, hin.2, fun heq => ?_⟩
      have hle : p.span.start < q.span.start ∨ p.span.start = q.span.start ∧
          (q.span.stop < p.span.stop ∨ q.span.stop = p.span.stop ∧ i ≤ j) :=
        zipIdxLE_comesFirst_iff.1 hsorted
      rw [heq] at hle
      omega
  · intro h
    refine hlisted.resolve_right fun hle => ?_
    split at h
    · omega
    · next hwide =>
      have hne : q.span.start ≠ q.span.stop := fun heq => hwide (beq_iff_eq.2 heq)
      omega

theorem not_encloses (hsorted : List.zipIdxLE comesFirst (p.declaration, i) (q.declaration, j) = true) :
    ¬ Declaration.Encloses (q.declaration, j) (p.declaration, i) := by
  have hle : p.span.start < q.span.start ∨ p.span.start = q.span.start ∧
      (q.span.stop < p.span.stop ∨ q.span.stop = p.span.stop ∧ i ≤ j) :=
    zipIdxLE_comesFirst_iff.1 hsorted
  rw [Declaration.Encloses]
  show ¬ if p.span.isEmpty = true then q.span.start ≤ p.span.start ∧ p.span.start < q.span.stop
    else q.span.start ≤ p.span.start ∧ p.span.stop ≤ q.span.stop ∧ (q.span = p.span → j < i)
  intro h
  split at h
  · next hempty =>
    have heq : p.span.start = p.span.stop := beq_iff_eq.1 hempty
    omega
  · obtain ⟨hstart, hstop, hsame⟩ := h
    have := hsame (Span.ext_of_eq (by omega) (by omega))
    omega

theorem exists_numbered {nodes : List Declaration} {row : List Site}
    (hsorted : row.map declaration = nodes.mergeSort comesFirst) :
    ∃ numbered : List (Site × Nat), numbered.map Prod.fst = row ∧
      (numbered.map fun x => (x.1.declaration, x.2)).Perm nodes.zipIdx ∧
      numbered.Pairwise fun a b => a.2 ≠ b.2 ∧
        List.zipIdxLE comesFirst (a.1.declaration, a.2) (b.1.declaration, b.2) = true := by
  let sorted := nodes.zipIdx.mergeSort (List.zipIdxLE comesFirst)
  have hperm : sorted.Perm nodes.zipIdx := List.mergeSort_perm _ _
  have hrow : sorted.map Prod.fst = row.map declaration := by rw [hsorted, List.mergeSort_zipIdx]
  have hlen : sorted.length = row.length := by
    have := congrArg List.length hrow
    rwa [List.length_map, List.length_map] at this
  have hdeclared : ((row.zip (sorted.map Prod.snd)).map fun x => (x.1.declaration, x.2)) =
      sorted := by
    calc (row.zip (sorted.map Prod.snd)).map (fun x => (x.1.declaration, x.2))
        = (row.map declaration).zip (sorted.map Prod.snd) := List.zip_map_left.symm
      _ = (sorted.map Prod.fst).zip (sorted.map Prod.snd) := by rw [hrow]
      _ = sorted := (List.zip_of_prod rfl rfl).symm
  have hnodup : (sorted.map Prod.snd).Nodup := by
    rw [(hperm.map Prod.snd).nodup_iff, List.zipIdx_map_snd]
    exact List.nodup_range'
  have horder := List.pairwise_mergeSort (List.zipIdxLE_trans comesFirst_trans)
    (List.zipIdxLE_total comesFirst_total) nodes.zipIdx
  refine ⟨row.zip (sorted.map Prod.snd), List.map_fst_zip ?_, ?_, ?_⟩
  · rw [List.length_map]
    exact Nat.le_of_eq hlen.symm
  · rwa [hdeclared]
  · have hpair := (List.pairwise_map.1 hnodup).and horder
    rw [← hdeclared] at hpair
    exact List.pairwise_map.1 hpair

/-- Numbered in this order, the nodes below a node lie around each other where the declarations
do. -/
theorem mem_enclosing_iff_encloses {numbered : List (Site × Nat)} {r : Site}
    (htight : ∀ s ∈ r.below, s.Tight) (hrow : numbered.map Prod.fst = r.below)
    (hsorted : numbered.Pairwise fun a b => a.2 ≠ b.2 ∧
      List.zipIdxLE comesFirst (a.1.declaration, a.2) (b.1.declaration, b.2) = true)
    {a b : Site × Nat} (ha : a ∈ numbered) (hb : b ∈ numbered) :
    a.1 ∈ b.1.enclosing ↔ Declaration.Encloses (a.1.declaration, a.2) (b.1.declaration, b.2) := by
  have hmem : ∀ {x}, x ∈ numbered → x.1 ∈ r.below := fun hx => hrow ▸ List.mem_map_of_mem hx
  rw [mem_enclosing_iff (List.mem_cons_of_mem r (hmem ha)) (List.mem_cons_of_mem r (hmem hb))]
  have hlisted := ((List.pairwise_cons.1 r.pairwise_preorder).2).and
    (List.pairwise_cons.1 r.pairwise_not_below).2
  rw [← hrow] at hlisted
  by_cases heq : a = b
  · subst heq
    refine iff_of_false (fun h => Nat.lt_irrefl _ (size_lt_of_mem_below h)) ?_
    exact not_encloses (zipIdxLE_comesFirst_iff.2 (.inr ⟨rfl, .inr ⟨rfl, Nat.le_refl _⟩⟩))
  · rcases rel_or_rel_of_pairwise ((List.pairwise_map.1 hlisted).and hsorted) ha hb heq with h | h
    · obtain ⟨⟨hlisted, -⟩, hne, horder⟩ := h
      exact mem_below_iff_encloses (htight a.1 (hmem ha)) hlisted horder hne
    · obtain ⟨⟨-, hback⟩, -, horder⟩ := h
      refine iff_of_false (fun hbelow => ?_) (not_encloses horder)
      have hlt := (htight a.1 (hmem ha)).start_lt hbelow
      have hle := hback hbelow
      have hin := within_of_mem_below hbelow
      omega

end Site

/-- What a tree says of the text and the declarations it was built from. -/
structure Faithful (text : String) (nodes : List Declaration) (tree : Tree) : Prop where
  /-- The tokens are together the text. -/
  text : (tree.tokens 0).flatMap (fun t => t.text.toList) = text.toList
  /-- The nodes below the root are the declarations. -/
  declared : ((Site.root tree).below.map Site.declaration).Perm nodes
  /-- Each node has the number of a declaration, and its ancestors are the nodes that enclose it. -/
  ancestry : ∃ numbered : List (Site × Nat), numbered.map Prod.fst = (Site.root tree).below ∧
    (numbered.map fun x => (x.1.declaration, x.2)).Perm nodes.zipIdx ∧
    ∀ a ∈ numbered, ∀ b ∈ numbered, a.1 ∈ b.1.enclosing ↔
      Declaration.Encloses (a.1.declaration, a.2) (b.1.declaration, b.2)
  /-- Empty nodes have no children. -/
  empty : ∀ s ∈ (Site.root tree).below, s.span.isEmpty = true → s.children = []
  /-- Of two siblings, the first one ends before the second one starts. -/
  ordered : ∀ s ∈ (Site.root tree).preorder,
    s.elements.Pairwise fun a b => a.span.stop ≤ b.span.start

/-- No node of an accepted tree ends with an empty node, the root apart. -/
theorem tight_of_ofDeclarations {text : String} {nodes : List Declaration} {tree : Tree}
    (h : Tree.ofDeclarations text nodes = .ok tree) : ∀ s ∈ (Site.root tree).below, s.Tight := by
  obtain ⟨children, rfl, -, htight⟩ := threaded_of_ofDeclarations h
  intro s hs
  obtain ⟨c, hc, hs⟩ := Site.mem_below_iff.1 hs
  have htree := Site.node_mem_of_mem_elementsFrom (Site.mem_nodes_iff.1 hc)
  exact Site.Tight.of_mem_preorder (htight _ htree) hs

/-- **Trees that are accepted are faithful.** -/
theorem faithful_of_ofDeclarations {text : String} {nodes : List Declaration} {tree : Tree}
    (h : Tree.ofDeclarations text nodes = .ok tree) : Faithful text nodes tree := by
  have hall := tight_of_ofDeclarations h
  obtain ⟨children, rfl, hdeclared, -⟩ := threaded_of_ofDeclarations h
  obtain ⟨children', heq, htokens⟩ := exists_of_ofDeclarations h
  obtain rfl := (Tree.node.inj heq).2
  let r := Site.root (.node .sourceFile children)
  have hbelow : r.below.map Site.declaration = nodes.mergeSort comesFirst := by
    rw [← hdeclared]
    exact Tree.map_preorderForest _ 0 children
  obtain ⟨numbered, hrow, hperm, hsorted⟩ := Site.exists_numbered hbelow
  refine ⟨?_, ?_, ⟨numbered, hrow, hperm, fun a ha b hb =>
    Site.mem_enclosing_iff_encloses hall hrow hsorted ha hb⟩, ?_, ?_⟩
  · rw [Tree.tokens, htokens, flatMap_tokenize]
  · rw [show (Site.root (.node .sourceFile children)).below.map _ = _ from hbelow]
    exact List.mergeSort_perm nodes comesFirst
  · exact fun s hs hempty => (hall s hs).children_eq_nil hempty
  · exact fun s _ => Site.pairwise_elementsFrom s.ancestors s.start s.children

theorem tight_of_resolve {name text : String} {language : Language} {facts : List NodeFact}
    {scope : Scope} {file : SourceFile}
    (h : SourceFile.resolve name language text facts scope = .ok file) :
    ∀ s ∈ file.root.below, s.Tight := by
  obtain ⟨tree, htree, rfl⟩ := SourceFile.resolve_eq_ok_iff.1 h
  exact tight_of_ofDeclarations htree

/-- Two nodes that cover the same bytes, with an argument list inside and an empty node where it
begins. -/
def nestedNodes : List Declaration := [
  ⟨.exprStmt, ⟨0, 3, by decide⟩⟩, ⟨.argList, ⟨2, 3, by decide⟩⟩,
  ⟨.referenceExpr, ⟨0, 3, by decide⟩⟩, ⟨.typeArgs, ⟨2, 2, by decide⟩⟩]

/-- Their tree: the statement was declared before the reference, and the empty node belongs to the
argument list. -/
def nestedTree : Tree := .node .sourceFile [.node .exprStmt [.node .referenceExpr [
  .token .ident "a", .token .dot ".", .node .argList [.node .typeArgs [], .token .ident "b"]]]]

theorem faithful_nested : Tree.ofDeclarations "a.b" nestedNodes = .ok nestedTree ∧
    Faithful "a.b" nestedNodes nestedTree := by
  have hsorted : nestedNodes.mergeSort comesFirst = [
      ⟨.exprStmt, ⟨0, 3, by decide⟩⟩, ⟨.referenceExpr, ⟨0, 3, by decide⟩⟩,
      ⟨.argList, ⟨2, 3, by decide⟩⟩, ⟨.typeArgs, ⟨2, 2, by decide⟩⟩] := by
    simp [nestedNodes, List.mergeSort, comesFirst]
  have h : Tree.ofDeclarations "a.b" nestedNodes = .ok nestedTree := by
    rw [Tree.ofDeclarations, hsorted]
    rfl
  exact ⟨h, faithful_of_ofDeclarations h⟩

end SourceRename
