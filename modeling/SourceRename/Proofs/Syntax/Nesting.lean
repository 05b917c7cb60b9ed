import SourceRename.Proofs.Fault
import SourceRename.Proofs.Syntax.Tokens
import SourceRename.Source.File

/-!
# Which declarations fit a text

`Tree.ofDeclarations` compares a declaration with one open node only, the innermost, and only at
the offsets where tokens begin.  `Fits` says in its place what must hold of all declarations at
once: each is of a kind that can be declared, lies inside the text, starts and ends on the boundary
of a token, and no two of them cross.  `exists_tree_iff` says that these are the same.

The proof follows the sweep over the offsets.  `Settled ds limit p` is the state in which all that
starts in front of the limit has been opened and all that ends in front of it has been closed;
`settle_eq_ok` and `settle_isOk` say when one more offset can be settled, and `sweep_iff` that
settling all of them asks for every start and every end to be among them and for no two
declarations to cross (`FitsFrom`).  Behind the last offset nothing can be open any more, so no node
is ever left unclosed.
-/

namespace SourceRename

/-! ### What declarations must satisfy -/

/-- The offset is the beginning of the text or the end of a token. -/
def Boundary (text : String) (n : Nat) : Prop := n = 0 ∨ ∃ t ∈ tokenize text, t.stop = n

/-- The second declaration starts inside the first one and ends behind it. -/
def Declaration.Crosses (a b : Declaration) : Prop :=
  a.span.start < b.span.start ∧ b.span.start < a.span.stop ∧ a.span.stop < b.span.stop

structure Fits (text : String) (nodes : List Declaration) : Prop where
  declarable : ∀ d ∈ nodes, d.kind.isToken = false ∧ d.kind ≠ .sourceFile ∧ d.kind ≠ .sentinel
  inside : ∀ d ∈ nodes, d.span.stop ≤ text.utf8ByteSize
  bounded : ∀ d ∈ nodes, Boundary text d.span.start ∧ Boundary text d.span.stop
  nested : ∀ a ∈ nodes, ∀ b ∈ nodes, ¬ a.Crosses b

namespace Outline

variable {offset : Nat} {current : List Tree} {frames : List Frame} {ds : List Declaration}

/-- The nodes that are open end in the order in which they will be closed. -/
def EndInOrder (frames : List Frame) : Prop := frames.Pairwise fun f g => f.stop ≤ g.stop

def InOrder (ds : List Declaration) : Prop := ds.Pairwise fun a b => comesFirst a b = true

theorem comesFirst_iff {a b : Declaration} : comesFirst a b = true ↔
    a.span.start < b.span.start ∨ a.span.start = b.span.start ∧ b.span.stop ≤ a.span.stop := by
  simp [comesFirst]

theorem comesFirst_trans (a b c : Declaration) (hab : comesFirst a b = true)
    (hbc : comesFirst b c = true) : comesFirst a c = true := by
  rw [comesFirst_iff] at *
  omega

theorem comesFirst_total (a b : Declaration) : (comesFirst a b || comesFirst b a) = true := by
  rw [Bool.or_eq_true, comesFirst_iff, comesFirst_iff]
  omega

theorem inOrder_mergeSort (ds : List Declaration) : InOrder (ds.mergeSort comesFirst) :=
  List.pairwise_mergeSort comesFirst_trans comesFirst_total ds

/-! ### Closing -/

theorem close_eq_ok {r : List Tree × List Frame} (hs : EndInOrder frames)
    (h : close offset current frames = .ok r) :
    (∀ f ∈ frames, offset ≤ f.stop) ∧ r.2 = frames.filter fun f => offset < f.stop := by
  induction frames generalizing current with
  | nil =>
    obtain rfl := Except.ok.inj h
    simp
  | cons f fs ih =>
    obtain ⟨hf, hfs⟩ := List.pairwise_cons.1 hs
    rw [close] at h
    split at h
    · next hlt =>
      obtain rfl := Except.ok.inj h
      have hall : ∀ g ∈ f :: fs, offset < g.stop := by
        intro g hg
        rcases List.mem_cons.1 hg with rfl | hg
        · exact hlt
        · exact Nat.lt_of_lt_of_le hlt (hf g hg)
      exact ⟨fun g hg => Nat.le_of_lt (hall g hg),
        (List.filter_eq_self.2 fun g hg => decide_eq_true (hall g hg)).symm⟩
    · split at h
      · simp at h
      · obtain ⟨hle, hr⟩ := ih hfs h
        refine ⟨List.forall_mem_cons.2 ⟨by omega, hle⟩, ?_⟩
        rw [hr, List.filter_cons_of_neg (by simpa using by omega)]

theorem close_isOk (current : List Tree) (h : ∀ f ∈ frames, offset ≤ f.stop) :
    ∃ r, close offset current frames = .ok r := by
  induction frames generalizing current with
  | nil => exact ⟨_, rfl⟩
  | cons f fs ih =>
    obtain ⟨hf, hfs⟩ := List.forall_mem_cons.1 h
    rw [close]
    split
    · exact ⟨_, rfl⟩
    · rw [if_neg (by omega)]
      exact ih _ hfs

theorem close_eq_error {e : OutlineError} (h : close offset current frames = .error e) :
    ∃ kind stop, e = .endsInsideToken kind stop := by
  induction frames generalizing current with
  | nil => simp [close] at h
  | cons f fs ih =>
    rw [close] at h
    split at h
    · simp at h
    · split at h
      · exact ⟨_, _, (Except.error.inj h).symm⟩
      · exact ih h

/-! ### Opening -/

/-- The innermost open node ends first, so it is enough to compare with it. -/
theorem head?_filter_eq_none_iff (hs : EndInOrder frames) {stop : Nat} :
    frames.head?.filter (·.stop < stop) = none ↔ ∀ f ∈ frames, stop ≤ f.stop := by
  cases frames with
  | nil => simp
  | cons f fs =>
    have hf := (List.pairwise_cons.1 hs).1
    simp only [List.head?_cons, Option.filter_eq_none_iff, Option.some.injEq, forall_eq',
      decide_eq_true_eq, Nat.not_lt, List.forall_mem_cons]
    exact ⟨fun h => ⟨h, fun g hg => Nat.le_trans h (hf g hg)⟩, fun h => h.1⟩

/-- One step of opening: nothing starts here any more, or the declaration ends inside all open
nodes and is an empty node or goes on the stack. -/
theorem openAt_cons_cases {d : Declaration} {r : Path} (hs : EndInOrder frames)
    (h : openAt offset current frames (d :: ds) = .ok r) :
    (offset < d.span.start ∧ r = ⟨current, frames, d :: ds⟩) ∨
      d.span.start = offset ∧ (∀ f ∈ frames, d.span.stop ≤ f.stop) ∧
        (d.span.stop = offset ∧ openAt offset (.node d.kind [] :: current) frames ds = .ok r ∨
          offset < d.span.stop ∧
            openAt offset [] (⟨d.kind, d.span.stop, current⟩ :: frames) ds = .ok r) := by
  have hspan := d.span.start_le_stop
  rw [openAt] at h
  by_cases hlt : offset < d.span.start
  · rw [if_pos hlt] at h
    exact .inl ⟨hlt, (Except.ok.inj h).symm⟩
  · rw [if_neg hlt] at h
    split at h
    · simp at h
    · have h0 : d.span.start = offset := by omega
      split at h
      · simp at h
      · next hnone =>
        refine .inr ⟨h0, (head?_filter_eq_none_iff hs).1 hnone, ?_⟩
        by_cases hempty : d.span.isEmpty = true
        · rw [if_pos hempty] at h
          exact .inl ⟨(beq_iff_eq.1 hempty).symm.trans h0, h⟩
        · rw [if_neg hempty] at h
          have hwide : d.span.start ≠ d.span.stop := fun heq => hempty (beq_iff_eq.2 heq)
          exact .inr ⟨by omega, h⟩

/-- What opening does to the stack: everything that starts at the offset is on it, and the
declarations behind the offset are left. -/
theorem openAt_eq_ok {r : Path} (hds : InOrder ds) (hs : EndInOrder frames)
    (h : openAt offset current frames ds = .ok r) :
    (∀ d ∈ ds, offset ≤ d.span.start) ∧
      (∀ d ∈ ds, d.span.start = offset → ∀ f ∈ frames, d.span.stop ≤ f.stop) ∧
      EndInOrder r.frames ∧ (r.pending = ds.filter fun d => offset < d.span.start) ∧
      ∀ n, n ∈ r.frames.map (·.stop) ↔ n ∈ frames.map (·.stop) ∨
        ∃ d ∈ ds, d.span.start = offset ∧ offset < d.span.stop ∧ d.span.stop = n := by
  induction ds generalizing current frames with
  | nil =>
    obtain rfl := Except.ok.inj h
    simpa using hs
  | cons d ds ih =>
    obtain ⟨hd, hds⟩ := List.pairwise_cons.1 hds
    rcases openAt_cons_cases hs h with ⟨hlt, rfl⟩ | ⟨h0, hle, ⟨hstop, h⟩ | ⟨hstop, h⟩⟩
    · -- nothing starts here any more
      have hall : ∀ e ∈ d :: ds, offset < e.span.start := by
        refine List.forall_mem_cons.2 ⟨hlt, ?_⟩
        intro e he
        have := comesFirst_iff.1 (hd e he)
        omega
      refine ⟨fun e he => Nat.le_of_lt (hall e he), ?_, hs,
        (List.filter_eq_self.2 fun e he => decide_eq_true (hall e he)).symm, ?_⟩
      · intro e he h0
        exact absurd h0 (Nat.ne_of_gt (hall e he))
      · intro n
        refine ⟨.inl, fun hn => hn.resolve_right ?_⟩
        rintro ⟨e, he, h0, -⟩
        exact absurd h0 (Nat.ne_of_gt (hall e he))
    · -- an empty node
      obtain ⟨h1, h2, h3, h4, h5⟩ := ih hds hs h
      refine ⟨List.forall_mem_cons.2 ⟨by omega, h1⟩, List.forall_mem_cons.2 ⟨fun _ => hle, h2⟩, h3,
        ?_, ?_⟩
      · rw [h4, List.filter_cons_of_neg (by simpa using by omega)]
      · intro n
        rw [h5]
        simp only [List.mem_cons, exists_eq_or_imp]
        exact or_congr_right ⟨.inr, fun h => h.resolve_left fun h => by omega⟩
    · -- a node on the stack
      obtain ⟨h1, h2, h3, h4, h5⟩ := ih hds (List.pairwise_cons.2 ⟨hle, hs⟩) h
      refine ⟨List.forall_mem_cons.2 ⟨by omega, h1⟩, List.forall_mem_cons.2 ⟨fun _ => hle, ?_⟩, h3,
        ?_, ?_⟩
      · intro e he h0
        exact (List.forall_mem_cons.1 (h2 e he h0)).2
      · rw [h4, List.filter_cons_of_neg (by simpa using by omega)]
      · intro n
        rw [h5]
        simp only [List.map_cons, List.mem_cons, exists_eq_or_imp, h0, hstop, true_and]
        rw [or_comm (a := n = d.span.stop), or_assoc, eq_comm (a := n)]

theorem openAt_isOk (current : List Tree) (hds : InOrder ds) (hs : EndInOrder frames)
    (hfrom : ∀ d ∈ ds, offset ≤ d.span.start)
    (hle : ∀ d ∈ ds, d.span.start = offset → ∀ f ∈ frames, d.span.stop ≤ f.stop) :
    ∃ r, openAt offset current frames ds = .ok r := by
  induction ds generalizing current frames with
  | nil => exact ⟨_, rfl⟩
  | cons d ds ih =>
    obtain ⟨hd, hds⟩ := List.pairwise_cons.1 hds
    obtain ⟨hfirst, hfrom⟩ := List.forall_mem_cons.1 hfrom
    obtain ⟨hled, hle⟩ := List.forall_mem_cons.1 hle
    rw [openAt]
    split
    · exact ⟨_, rfl⟩
    · have h0 : d.span.start = offset := by omega
      rw [if_neg (by omega), (head?_filter_eq_none_iff hs).2 (hled h0)]
      simp only
      split
      · exact ih _ hds hs hfrom hle
      · apply ih [] hds (List.pairwise_cons.2 ⟨hled h0, hs⟩) hfrom
        intro e he he0
        -- the declaration just opened is the longer one of two that start here
        refine List.forall_mem_cons.2 ⟨?_, hle e he he0⟩
        have := comesFirst_iff.1 (hd e he)
        show e.span.stop ≤ d.span.stop
        omega

theorem openAt_eq_error {e : OutlineError} (h : openAt offset current frames ds = .error e) :
    (∃ kind start, e = .startsInsideToken kind start) ∨
      ∃ node outer stop, e = .crosses node outer stop := by
  induction ds generalizing current frames with
  | nil => simp [openAt] at h
  | cons d ds ih =>
    rw [openAt] at h
    split at h
    · simp at h
    · split at h
      · exact .inl ⟨_, _, (Except.error.inj h).symm⟩
      · split at h
        · exact .inr ⟨_, _, _, (Except.error.inj h).symm⟩
        · split at h
          · exact ih h
          · exact ih h

/-! ### One offset -/

/-- All that starts in front of the limit has been opened, and of this all that ends in front of it
has been closed. -/
structure Settled (ds : List Declaration) (limit : Nat) (p : Path) : Prop where
  ends : EndInOrder p.frames
  pending : p.pending = ds.filter fun d => limit ≤ d.span.start
  frames : ∀ n, n ∈ p.frames.map (·.stop) ↔
    ∃ d ∈ ds, d.span.start < limit ∧ limit ≤ d.span.stop ∧ d.span.stop = n

/-- What is settled up to the limit can be settled up to the offset and with it. -/
structure Reaches (ds : List Declaration) (limit offset : Nat) : Prop where
  ends : ∀ d ∈ ds, d.span.start < limit → limit ≤ d.span.stop → offset ≤ d.span.stop
  starts : ∀ d ∈ ds, limit ≤ d.span.start → offset ≤ d.span.start
  nested : ∀ a ∈ ds, ∀ d ∈ ds, d.span.start = offset → a.span.start < limit →
    offset < a.span.stop → d.span.stop ≤ a.span.stop

variable {p q : Path} {limit : Nat}

theorem settled_start (ds : List Declaration) : Settled ds 0 ⟨[], [], ds⟩ := by
  refine ⟨.nil, (List.filter_eq_self.2 fun d _ => decide_eq_true (Nat.zero_le _)).symm, ?_⟩
  simp

theorem Settled.withCurrent (h : Settled ds limit p) (current : List Tree) :
    Settled ds limit { p with current } := ⟨h.ends, h.pending, h.frames⟩

theorem Settled.mem_pending_iff (h : Settled ds limit p) {d : Declaration} :
    d ∈ p.pending ↔ d ∈ ds ∧ limit ≤ d.span.start := by
  rw [h.pending, List.mem_filter, decide_eq_true_eq]

theorem Settled.inOrder_pending (h : Settled ds limit p) (hds : InOrder ds) :
    InOrder p.pending := by
  rw [h.pending]
  exact hds.filter _

/-- Every open node is a declaration that starts in front of the limit, and conversely. -/
theorem Settled.forall_frames_iff (h : Settled ds limit p) {P : Nat → Prop} :
    (∀ f ∈ p.frames, P f.stop) ↔
      ∀ d ∈ ds, d.span.start < limit → limit ≤ d.span.stop → P d.span.stop := by
  constructor
  · intro hp d hd h1 h2
    obtain ⟨f, hf, hstop⟩ := List.mem_map.1 ((h.frames _).2 ⟨d, hd, h1, h2, rfl⟩)
    exact hstop ▸ hp f hf
  · intro hp f hf
    obtain ⟨d, hd, h1, h2, hstop⟩ := (h.frames _).1 (List.mem_map.2 ⟨f, hf, rfl⟩)
    exact hstop ▸ hp d hd h1 h2

theorem settle_eq_ok (hds : InOrder ds) (h : Settled ds limit p) (hlimit : limit ≤ offset)
    (hq : p.settle offset = .ok q) : Reaches ds limit offset ∧ Settled ds (offset + 1) q := by
  obtain ⟨⟨current, frames⟩, hclose, hopen⟩ := bind_eq_ok_iff.1 hq
  obtain ⟨hends, hframes⟩ := close_eq_ok h.ends hclose
  simp only at hopen hframes
  have hsorted : EndInOrder frames := by
    rw [hframes]
    exact h.ends.filter _
  obtain ⟨h1, h2, h3, h4, h5⟩ := openAt_eq_ok (h.inOrder_pending hds) hsorted hopen
  have hends := h.forall_frames_iff.1 hends
  have hstarts : ∀ d ∈ ds, limit ≤ d.span.start → offset ≤ d.span.start :=
    fun d hd hle => h1 d (h.mem_pending_iff.2 ⟨hd, hle⟩)
  have hstop : ∀ n, n ∈ frames.map (·.stop) ↔ n ∈ p.frames.map (·.stop) ∧ offset < n := by
    intro n
    rw [hframes]
    simp only [List.mem_map, List.mem_filter, decide_eq_true_eq]
    constructor
    · rintro ⟨f, ⟨hf, hlt⟩, rfl⟩
      exact ⟨⟨f, hf, rfl⟩, hlt⟩
    · rintro ⟨⟨f, hf, rfl⟩, hlt⟩
      exact ⟨f, ⟨hf, hlt⟩, rfl⟩
  refine ⟨⟨hends, hstarts, ?_⟩, ⟨h3, ?_, ?_⟩⟩
  · intro a ha d hd h0 hal hat
    obtain ⟨f, hf, hfa⟩ := List.mem_map.1 ((hstop _).2
      ⟨(h.frames _).2 ⟨a, ha, hal, by omega, rfl⟩, hat⟩)
    rw [← hfa]
    exact h2 d (h.mem_pending_iff.2 ⟨hd, by omega⟩) h0 f hf
  · rw [h4, h.pending, List.filter_filter]
    apply List.filter_congr
    intro d _
    rw [← Bool.decide_and]
    exact decide_eq_decide.2 (by omega)
  · intro n
    rw [h5, hstop, h.frames]
    constructor
    · rintro (⟨⟨d, hd, h1, h2, rfl⟩, h3⟩ | ⟨d, hd, h0, h1, rfl⟩)
      · exact ⟨d, hd, by omega, h3, rfl⟩
      · exact ⟨d, (h.mem_pending_iff.1 hd).1, by omega, h1, rfl⟩
    · rintro ⟨d, hd, h1, h2, rfl⟩
      by_cases hl : d.span.start < limit
      · exact .inl ⟨⟨d, hd, hl, by omega, rfl⟩, h2⟩
      · have := hstarts d hd (by omega)
        exact .inr ⟨d, h.mem_pending_iff.2 ⟨hd, by omega⟩, by omega, h2, rfl⟩

theorem settle_isOk (hds : InOrder ds) (h : Settled ds limit p)
    (hr : Reaches ds limit offset) : ∃ q, p.settle offset = .ok q := by
  obtain ⟨⟨current, frames⟩, hclose⟩ := close_isOk p.current
    (h.forall_frames_iff.2 hr.ends)
  have hframes := (close_eq_ok h.ends hclose).2
  have hsorted : EndInOrder frames := by
    rw [show frames = _ from hframes]
    exact h.ends.filter _
  obtain ⟨q, hq⟩ := openAt_isOk current (h.inOrder_pending hds)
    hsorted
    (fun d hd => hr.starts d (h.mem_pending_iff.1 hd).1 (h.mem_pending_iff.1 hd).2)
    (fun d hd h0 f hf => by
      rw [show frames = _ from hframes, List.mem_filter, decide_eq_true_eq] at hf
      obtain ⟨a, ha, h1, -, h2⟩ := (h.frames _).1 (List.mem_map.2 ⟨f, hf.1, rfl⟩)
      rw [← h2]
      exact hr.nested a ha d (h.mem_pending_iff.1 hd).1 h0 h1 (by omega))
  exact ⟨q, bind_eq_ok_iff.2 ⟨_, hclose, hq⟩⟩

/-! ### All offsets -/

/-- What is left to ask of declarations when all in front of the limit is settled: that they start
and end at the offsets to come, and that nothing crosses what starts there. -/
def FitsFrom (ds : List Declaration) (limit : Nat) (os : List Nat) : Prop :=
  ∀ d ∈ ds, (limit ≤ d.span.start → d.span.start ∈ os) ∧ (limit ≤ d.span.stop → d.span.stop ∈ os) ∧
    (limit ≤ d.span.start → ∀ a ∈ ds, ¬ a.Crosses d)

/-- One offset at a time: comparing with what is open there is enough. -/
theorem fitsFrom_cons_iff (ds : List Declaration) {os : List Nat} (hlimit : limit ≤ offset)
    (hos : ∀ o ∈ os, offset < o) : FitsFrom ds limit (offset :: os) ↔
      Reaches ds limit offset ∧ FitsFrom ds (offset + 1) os := by
  have hge : ∀ {n}, n ∈ offset :: os → offset ≤ n ∧ (offset + 1 ≤ n → n ∈ os) := by
    intro n hn
    rcases List.mem_cons.1 hn with rfl | hn
    · exact ⟨Nat.le_refl _, fun h => absurd h (by omega)⟩
    · exact ⟨Nat.le_of_lt (hos n hn), fun _ => hn⟩
  constructor
  · intro h
    refine ⟨⟨fun d hd _ hl => (hge ((h d hd).2.1 hl)).1, fun d hd hl => (hge ((h d hd).1 hl)).1,
      ?_⟩, fun d hd => ⟨?_, ?_, ?_⟩⟩
    · intro a ha d hd h0 h1 h2
      have hc := (h d hd).2.2 (by omega) a ha
      exact Nat.le_of_not_lt fun hlt => hc ⟨by omega, by omega, hlt⟩
    · intro hl
      exact (hge ((h d hd).1 (by omega))).2 hl
    · intro hl
      exact (hge ((h d hd).2.1 (by omega))).2 hl
    · intro hl
      exact (h d hd).2.2 (by omega)
  · rintro ⟨hr, h⟩ d hd
    have hmem : ∀ {n}, offset ≤ n → (offset + 1 ≤ n → n ∈ os) → n ∈ offset :: os := by
      intro n hn hos
      rcases Nat.eq_or_lt_of_le hn with rfl | hn
      · exact List.mem_cons_self
      · exact List.mem_cons_of_mem _ (hos hn)
    refine ⟨fun hl => hmem (hr.starts d hd hl) (h d hd).1, fun hl => hmem ?_ (h d hd).2.1,
      ?_⟩
    · by_cases hs : d.span.start < limit
      · exact hr.ends d hd hs hl
      · exact Nat.le_trans (hr.starts d hd (by omega)) d.span.start_le_stop
    · intro hl a ha hc
      obtain ⟨h1, h2, h3⟩ := hc
      rcases Nat.eq_or_lt_of_le (hr.starts d hd hl) with h0 | h0
      · -- the outer one is open here, so the step has compared the two
        have hal : a.span.start < limit := Nat.lt_of_not_le fun hle => by
          have := hr.starts a ha hle
          omega
        have := hr.nested a ha d hd h0.symm hal (by omega)
        omega
      · exact (h d hd).2.2 h0 a ha ⟨h1, h2, h3⟩

theorem fitsFrom_nil (h : ∀ d ∈ ds, d.span.stop < limit) : FitsFrom ds limit [] := by
  intro d hd
  have := h d hd
  have := d.span.start_le_stop
  exact ⟨by omega, by omega, by omega⟩

def sweep (p : Path) (ts : List Token) (stop : Nat) : Except OutlineError Path :=
  ts.foldlM Path.add p >>= fun q => q.settle stop

theorem sweep_cons (p : Path) (t : Token) (ts : List Token) (stop : Nat) :
    sweep p (t :: ts) stop = (p.settle t.start >>= fun q =>
      sweep { q with current := .token t.kind t.text :: q.current } ts stop) := by
  rw [sweep, List.foldlM_cons, Path.add]
  simp only [bind_assoc, pure_bind]
  rfl

/-- The sweep gets through if what is left to ask holds. -/
theorem sweep_iff {start stop : Nat} {ts : List Token} (hds : InOrder ds)
    (hinside : ∀ d ∈ ds, d.span.stop ≤ stop) (hside : SideBySide start ts stop)
    (hlimit : limit ≤ start) (h : Settled ds limit p) :
    ((∃ q, sweep p ts stop = .ok q) ↔ FitsFrom ds limit (offsets ts stop)) ∧
      ∀ q, sweep p ts stop = .ok q → Settled ds (stop + 1) q := by
  induction hside generalizing limit p with
  | nil offset =>
    have hnil := fitsFrom_nil fun d hd => Nat.lt_succ_of_le (hinside d hd)
    refine ⟨⟨?_, ?_⟩, fun q hq => (settle_eq_ok hds h hlimit hq).2⟩
    · rintro ⟨q, hq⟩
      exact (fitsFrom_cons_iff ds hlimit (by simp)).2 ⟨(settle_eq_ok hds h hlimit hq).1, hnil⟩
    · intro hfits
      exact settle_isOk hds h ((fitsFrom_cons_iff ds hlimit (by simp)).1 hfits).1
  | @cons t ts stop ht hside ih =>
    have hlt := Token.start_lt_stop ht
    have hos : ∀ o ∈ offsets ts stop, t.start < o := fun o ho =>
      Nat.lt_of_lt_of_le hlt (hside.le_of_mem_offsets o ho)
    have hcons := fitsFrom_cons_iff ds hlimit hos
    rw [sweep_cons, show offsets (t :: ts) stop = t.start :: offsets ts stop from rfl, hcons]
    refine ⟨⟨?_, ?_⟩, ?_⟩
    · rintro ⟨q, hq⟩
      obtain ⟨r, hr, hq⟩ := bind_eq_ok_iff.1 hq
      obtain ⟨hreach, hsettled⟩ := settle_eq_ok hds h hlimit hr
      exact ⟨hreach, (ih hinside hlt (hsettled.withCurrent _)).1.1 ⟨q, hq⟩⟩
    · rintro ⟨hr, hfits⟩
      obtain ⟨r, hr⟩ := settle_isOk hds h hr
      obtain ⟨-, hsettled⟩ := settle_eq_ok hds h hlimit hr
      obtain ⟨q, hq⟩ := (ih hinside hlt (hsettled.withCurrent _)).1.2 hfits
      exact ⟨q, bind_eq_ok_iff.2 ⟨r, hr, hq⟩⟩
    · intro q hq
      obtain ⟨r, hr, hq⟩ := bind_eq_ok_iff.1 hq
      obtain ⟨-, hsettled⟩ := settle_eq_ok hds h hlimit hr
      exact (ih hinside hlt (hsettled.withCurrent _)).2 q hq

theorem Settled.frames_eq_nil (h : Settled ds limit p) (hend : ∀ d ∈ ds, d.span.stop < limit) :
    p.frames = [] := by
  apply List.eq_nil_iff_forall_not_mem.2
  intro f hf
  obtain ⟨d, hd, -, h1, -⟩ := (h.frames _).1 (List.mem_map.2 ⟨f, hf, rfl⟩)
  have := hend d hd
  omega

theorem sweep_eq_error {ts : List Token} {stop : Nat} {e : OutlineError}
    (h : sweep p ts stop = .error e) (kind : Kind) (n : Nat) : e ≠ .neverClosed kind n := by
  have hsettle : ∀ {p : Path} {offset : Nat}, p.settle offset = .error e →
      e ≠ .neverClosed kind n := by
    intro p offset h
    rcases bind_eq_error_iff.1 h with h | ⟨⟨current, frames⟩, -, h⟩
    · obtain ⟨_, _, rfl⟩ := close_eq_error h
      exact nofun
    · rcases openAt_eq_error h with ⟨_, _, rfl⟩ | ⟨_, _, _, rfl⟩
      · exact nofun
      · exact nofun
  induction ts generalizing p with
  | nil => exact hsettle h
  | cons t ts ih =>
    rw [sweep_cons] at h
    rcases bind_eq_error_iff.1 h with h | ⟨_, -, h⟩
    · exact hsettle h
    · exact ih h

/-! ### Declarations by themselves -/

theorem check_eq_ok_iff {length : Nat} {d : Declaration} : check length d = .ok () ↔
    (d.kind.isToken = false ∧ d.kind ≠ .sourceFile ∧ d.kind ≠ .sentinel) ∧
      d.span.stop ≤ length := by
  have hkind : d.kind.isDeclarable = true ↔
      d.kind.isToken = false ∧ d.kind ≠ .sourceFile ∧ d.kind ≠ .sentinel := by
    simp [Kind.isDeclarable, and_assoc]
  rw [← hkind, check]
  split
  · next h => simp_all
  · next h =>
    split
    · next hlt => simp [Nat.not_le_of_lt hlt]
    · next hle => simp_all

theorem check_eq_error {length : Nat} {d : Declaration} {e : OutlineError}
    (h : check length d = .error e) (kind : Kind) (n : Nat) : e ≠ .neverClosed kind n := by
  rw [check] at h
  split at h
  · obtain rfl := Except.error.inj h
    exact nofun
  · split at h
    · obtain rfl := Except.error.inj h
      exact nofun
    · simp at h

end Outline

/-! ### Trees -/

open Outline

theorem boundary_iff {text : String} {n : Nat} :
    Boundary text n ↔ n ∈ offsets (tokenize text) text.utf8ByteSize :=
  (sideBySide_tokenize text).mem_offsets_iff.symm

/-- The declarations fit if each passes its own check and the sweep finds nothing left to ask. -/
theorem fits_iff {text : String} {nodes : List Declaration} : Fits text nodes ↔
    (∀ d ∈ nodes, check text.utf8ByteSize d = .ok ()) ∧
      FitsFrom (nodes.mergeSort comesFirst) 0 (offsets (tokenize text) text.utf8ByteSize) := by
  simp only [check_eq_ok_iff, FitsFrom, List.mem_mergeSort, Nat.zero_le, forall_const,
    ← boundary_iff]
  constructor
  · rintro ⟨h1, h2, h3, h4⟩
    exact ⟨fun d hd => ⟨h1 d hd, h2 d hd⟩,
      fun d hd => ⟨(h3 d hd).1, (h3 d hd).2, fun a ha => h4 a ha d hd⟩⟩
  · rintro ⟨h1, h2⟩
    exact ⟨fun d hd => (h1 d hd).1, fun d hd => (h1 d hd).2,
      fun d hd => ⟨(h2 d hd).1, (h2 d hd).2.1⟩, fun a ha d hd => (h2 d hd).2.2 a ha⟩

theorem ofDeclarations_eq (text : String) (nodes : List Declaration) :
    Tree.ofDeclarations text nodes =
      (nodes.forM (check text.utf8ByteSize) >>= fun _ =>
        sweep ⟨[], [], nodes.mergeSort comesFirst⟩ (tokenize text) text.utf8ByteSize >>= fun p =>
          match p.frames with
          | [] => pure (.node .sourceFile p.current.reverse)
          | f :: _ => throw (.neverClosed f.kind f.stop)) := by
  simp only [sweep, bind_assoc]
  rfl

theorem ofDeclarations_eq_ok {text : String} {nodes : List Declaration} {tree : Tree}
    (h : Tree.ofDeclarations text nodes = .ok tree) :
    (∀ d ∈ nodes, check text.utf8ByteSize d = .ok ()) ∧
      ∃ p, sweep ⟨[], [], nodes.mergeSort comesFirst⟩ (tokenize text) text.utf8ByteSize = .ok p ∧
        p.frames = [] ∧ tree = .node .sourceFile p.current.reverse := by
  rw [ofDeclarations_eq] at h
  obtain ⟨_, hcheck, h⟩ := bind_eq_ok_iff.1 h
  obtain ⟨p, hp, h⟩ := bind_eq_ok_iff.1 h
  refine ⟨forM_eq_ok_iff.1 hcheck, p, hp, ?_⟩
  split at h
  · next hnil => exact ⟨hnil, (Except.ok.inj h).symm⟩
  · simp [throw, throwThe, MonadExceptOf.throw] at h

section

variable {text : String} {nodes : List Declaration}

theorem sweep_declarations (hcheck : ∀ d ∈ nodes, check text.utf8ByteSize d = .ok ()) :
    ((∃ q, sweep ⟨[], [], nodes.mergeSort comesFirst⟩ (tokenize text) text.utf8ByteSize = .ok q) ↔
      FitsFrom (nodes.mergeSort comesFirst) 0 (offsets (tokenize text) text.utf8ByteSize)) ∧
      ∀ q, sweep ⟨[], [], nodes.mergeSort comesFirst⟩ (tokenize text) text.utf8ByteSize = .ok q →
        q.frames = [] := by
  have hinside : ∀ d ∈ nodes.mergeSort comesFirst, d.span.stop ≤ text.utf8ByteSize :=
    fun d hd => (check_eq_ok_iff.1 (hcheck d (List.mem_mergeSort.1 hd))).2
  obtain ⟨hiff, hsettled⟩ := sweep_iff (inOrder_mergeSort nodes) hinside
    (sideBySide_tokenize text) (Nat.zero_le _) (settled_start _)
  exact ⟨hiff, fun q hq =>
    (hsettled q hq).frames_eq_nil fun d hd => Nat.lt_succ_of_le (hinside d hd)⟩

theorem exists_tree_iff :
    (∃ tree, Tree.ofDeclarations text nodes = .ok tree) ↔ Fits text nodes := by
  rw [fits_iff]
  constructor
  · rintro ⟨tree, htree⟩
    obtain ⟨hcheck, p, hp, -⟩ := ofDeclarations_eq_ok htree
    exact ⟨hcheck, (sweep_declarations hcheck).1.1 ⟨p, hp⟩⟩
  · rintro ⟨hcheck, hfits⟩
    obtain ⟨p, hp⟩ := (sweep_declarations hcheck).1.2 hfits
    refine ⟨.node .sourceFile p.current.reverse, ?_⟩
    rw [ofDeclarations_eq]
    refine bind_eq_ok_iff.2 ⟨(), forM_eq_ok_iff.2 hcheck, bind_eq_ok_iff.2 ⟨p, hp, ?_⟩⟩
    rw [(sweep_declarations hcheck).2 p hp]
    rfl

theorem ofDeclarations_eq_error {reason : OutlineError}
    (h : Tree.ofDeclarations text nodes = .error reason) (kind : Kind) (stop : Nat) :
    reason ≠ .neverClosed kind stop := by
  rw [ofDeclarations_eq] at h
  rcases bind_eq_error_iff.1 h with h | ⟨_, hcheck, h⟩
  · obtain ⟨d, -, h⟩ := exists_of_forM_eq_error h
    exact check_eq_error h kind stop
  · rcases bind_eq_error_iff.1 h with h | ⟨p, hp, h⟩
    · exact sweep_eq_error h kind stop
    · rw [(sweep_declarations (forM_eq_ok_iff.1 hcheck)).2 p hp] at h
      simp [pure, Except.pure] at h

end

/-- **Trees are built exactly where declarations fit.**  In every other case the tree is refused,
which makes the file malformed, and never because a node was left open at the end. -/
theorem tree_iff_fits (text : String) (nodes : List Declaration) :
    ((∃ tree, Tree.ofDeclarations text nodes = .ok tree) ↔ Fits text nodes) ∧
      (¬ Fits text nodes ↔ ∃ reason, Tree.ofDeclarations text nodes = .error reason ∧
        ∀ kind stop, reason ≠ .neverClosed kind stop) ∧
      ∀ name language facts scope, SourceFile.declarations facts = nodes →
        (¬ Fits text nodes ↔ ∃ reason,
          SourceFile.resolve name language text facts scope = .error (.malformedTree name reason) ∧
            ∀ kind stop, reason ≠ .neverClosed kind stop) := by
  have hiff : (∃ tree, Tree.ofDeclarations text nodes = .ok tree) ↔ Fits text nodes :=
    exists_tree_iff
  cases htree : Tree.ofDeclarations text nodes with
  | ok tree =>
    have hfits := hiff.1 ⟨tree, htree⟩
    refine ⟨by simpa [htree] using hiff, by simpa using hfits, ?_⟩
    rintro name language facts scope rfl
    simpa [SourceFile.resolve, htree] using hfits
  | error reason =>
    have hnot : ¬ Fits text nodes := fun hfits => by
      obtain ⟨tree, h⟩ := hiff.2 hfits
      simp [htree] at h
    have hopen := ofDeclarations_eq_error htree
    refine ⟨by simpa using hnot, ⟨fun _ => ⟨reason, rfl, hopen⟩, fun _ => hnot⟩, ?_⟩
    rintro name language facts scope rfl
    refine ⟨fun _ => ⟨reason, ?_, hopen⟩, fun _ => hnot⟩
    simp [SourceFile.resolve, htree]

end SourceRename
