import Mathlib.Data.List.Basic
import SourceRename.Proofs.Symbol.Ancestry
import SourceRename.Proofs.Table

/-!
# The nearest supertype

`Scope.ancestry` lists a class and its supertypes ring by ring: `s.ring a k` holds what is `k` steps
away from `a` and not less (`mem_ring_iff`), in the order of the ring before it and, below each of
its names, in the order of the direct supertypes:

    s.ring a (k + 1) = news (s.nearer a (k + 1)) ((s.ring a k).flatMap s.supertypes)

Supertypes may form cycles and may be unknown, so the search needs to remember what it has visited.
`Search` is the search with the names visited instead of those still to come.  It ends for all
scopes, since what is ever queued occurs in the scope (`search_ancestry`), and with each round over
its queue it lists one more ring (`Search.round`).

So what is looked for is found in the nearest ring that has it, and there where it comes first
(`findSome?_ancestry`).
-/

namespace SourceRename

/-! ### First occurrences -/

/-- The names of a list that are not known yet, each once, where it occurs first. -/
def news (known names : List String) : List String := (names.filter (· ∉ known)).eraseDups

section

variable {known names : List String} {name c : String}

theorem mem_news_iff : c ∈ news known names ↔ c ∈ names ∧ c ∉ known := by
  rw [news, List.mem_eraseDups, List.mem_filter, decide_eq_true_eq]

theorem news_cons_of_mem (h : name ∈ known) : news known (name :: names) = news known names := by
  rw [news, List.filter_cons_of_neg (by simpa using h), news]

theorem news_cons_of_notMem (h : name ∉ known) :
    news known (name :: names) = name :: news (name :: known) names := by
  have hrest : (names.filter (· ∉ known)).filter (fun b => !b == name) =
      names.filter (· ∉ name :: known) := by
    rw [List.filter_filter]
    refine List.filter_congr fun b _ => ?_
    by_cases hb : b = name <;> simp [hb]
  rw [news, List.filter_cons_of_pos (by simpa using h), List.eraseDups_cons, hrest, news]

end

namespace Scope

variable {s : Scope} {a b c name : String} {visited queue more listed : List String} {k n : Nat}

/-! ### Rings -/

inductive ReachesIn (s : Scope) (a : String) : Nat → String → Prop
  | zero : ReachesIn s a 0 a
  | succ {k : Nat} {b c : String} : ReachesIn s a k b → c ∈ s.supertypes b →
      ReachesIn s a (k + 1) c

/-- So many steps lead from the one class to the other, and no fewer. -/
def AtDistance (s : Scope) (a : String) (k : Nat) (c : String) : Prop :=
  s.ReachesIn a k c ∧ ∀ j < k, ¬ s.ReachesIn a j c

/-- What is known before a round, and the names that the round goes through: at first the class
alone, then the direct supertypes of what the last round found. -/
def round (s : Scope) (a : String) : Nat → List String × List String
  | 0 => ([], [a])
  | k + 1 =>
    let found := news (s.round a k).1 (s.round a k).2
    ((s.round a k).1 ++ found, found.flatMap s.supertypes)

def nearer (s : Scope) (a : String) (k : Nat) : List String := (s.round a k).1

/-- The names at the given distance, in the order in which they are found. -/
def ring (s : Scope) (a : String) (k : Nat) : List String := news (s.round a k).1 (s.round a k).2

theorem ring_zero (s : Scope) (a : String) : s.ring a 0 = [a] := by
  rw [ring, round, news_cons_of_notMem List.not_mem_nil]
  rfl

theorem nearer_succ (s : Scope) (a : String) (k : Nat) :
    s.nearer a (k + 1) = s.nearer a k ++ s.ring a k := rfl

theorem ring_succ (s : Scope) (a : String) (k : Nat) :
    s.ring a (k + 1) = news (s.nearer a (k + 1)) ((s.ring a k).flatMap s.supertypes) := rfl

theorem reachesIn_of_mem_ring (h : c ∈ s.ring a k) : s.ReachesIn a k c := by
  induction k generalizing c with
  | zero =>
    rw [ring_zero] at h
    obtain rfl := List.mem_singleton.1 h
    exact .zero
  | succ k ih =>
    rw [ring_succ] at h
    obtain ⟨b, hb, hc⟩ := List.mem_flatMap.1 (mem_news_iff.1 h).1
    exact .succ (ih hb) hc

/-- The direct supertypes of what is nearer are in the next ring or nearer themselves. -/
theorem mem_nearer_of_supertype (hb : b ∈ s.nearer a k) (hc : c ∈ s.supertypes b) :
    c ∈ s.nearer a (k + 1) := by
  induction k with
  | zero => exact absurd hb List.not_mem_nil
  | succ k ih =>
    rw [nearer_succ, List.mem_append]
    rw [nearer_succ] at hb
    rcases List.mem_append.1 hb with hb | hb
    · exact .inl (ih hb)
    · by_cases hknown : c ∈ s.nearer a (k + 1)
      · exact .inl hknown
      · refine .inr ?_
        rw [ring_succ]
        exact mem_news_iff.2 ⟨List.mem_flatMap.2 ⟨b, hb, hc⟩, hknown⟩

theorem mem_nearer_iff : c ∈ s.nearer a k ↔ ∃ j < k, s.ReachesIn a j c := by
  constructor
  · intro h
    induction k with
    | zero => exact absurd h List.not_mem_nil
    | succ k ih =>
      rw [nearer_succ] at h
      rcases List.mem_append.1 h with h | h
      · obtain ⟨j, hj, hreaches⟩ := ih h
        exact ⟨j, Nat.lt_succ_of_lt hj, hreaches⟩
      · exact ⟨k, Nat.lt_succ_self k, reachesIn_of_mem_ring h⟩
  · rintro ⟨j, hj, h⟩
    induction h generalizing k with
    | zero =>
      induction k with
      | zero => exact absurd hj (Nat.lt_irrefl 0)
      | succ k ih =>
        rw [nearer_succ, List.mem_append]
        rcases Nat.eq_zero_or_pos k with rfl | hk
        · exact .inr (ring_zero s a ▸ List.mem_singleton_self a)
        · exact .inl (ih hk)
    | @succ j b c hb hc ih =>
      obtain ⟨k, rfl⟩ : ∃ i, k = i + 1 := ⟨k - 1, by omega⟩
      exact mem_nearer_of_supertype (ih (by omega)) hc

theorem mem_nearer_iff_ring : c ∈ s.nearer a k ↔ ∃ j < k, c ∈ s.ring a j := by
  induction k with
  | zero => simp [nearer, round]
  | succ k ih =>
    rw [nearer_succ, List.mem_append, ih]
    constructor
    · rintro (⟨j, hj, h⟩ | h)
      · exact ⟨j, Nat.lt_succ_of_lt hj, h⟩
      · exact ⟨k, Nat.lt_succ_self k, h⟩
    · rintro ⟨j, hj, h⟩
      rcases Nat.lt_succ_iff_lt_or_eq.1 hj with hj | rfl
      · exact .inl ⟨j, hj, h⟩
      · exact .inr h

/-- **A ring holds what is at its distance.** -/
theorem mem_ring_iff : c ∈ s.ring a k ↔ s.AtDistance a k c := by
  have hnew : c ∈ s.ring a k → c ∉ s.nearer a k := fun h => (mem_news_iff.1 h).2
  constructor
  · intro h
    exact ⟨reachesIn_of_mem_ring h, fun j hj hreaches =>
      hnew h (mem_nearer_iff.2 ⟨j, hj, hreaches⟩)⟩
  · rintro ⟨hreaches, hfirst⟩
    have hmem : c ∈ s.nearer a (k + 1) := mem_nearer_iff.2 ⟨k, Nat.lt_succ_self k, hreaches⟩
    rw [nearer_succ] at hmem
    refine (List.mem_append.1 hmem).resolve_left fun h => ?_
    obtain ⟨j, hj, hnearer⟩ := mem_nearer_iff.1 h
    exact hfirst j hj hnearer

theorem reaches_iff : s.Reaches a c ↔ ∃ k, s.ReachesIn a k c := by
  constructor
  · intro h
    induction h with
    | refl => exact ⟨0, .zero⟩
    | tail _ hc ih =>
      obtain ⟨k, hk⟩ := ih
      exact ⟨k + 1, .succ hk hc⟩
  · rintro ⟨k, h⟩
    induction h with
    | zero => exact .refl
    | succ _ hc ih => exact .tail ih hc

/-! ### The search -/

/-- The search with a queue and the names visited, and what it lists. -/
inductive Search (s : Scope) : List String → List String → List String → Prop
  | done {visited : List String} : Search s visited [] []
  | again {visited queue listed : List String} {name : String} : name ∈ visited →
      Search s visited queue listed → Search s visited (name :: queue) listed
  | visit {visited queue listed : List String} {name : String} : name ∉ visited →
      Search s (name :: visited) (queue ++ s.supertypes name) listed →
      Search s visited (name :: queue) (name :: listed)

theorem Search.congr {known : List String} (h : s.Search visited queue listed)
    (hmem : ∀ n, n ∈ visited ↔ n ∈ known) : s.Search known queue listed := by
  induction h generalizing known with
  | done => exact .done
  | again hname _ ih => exact .again ((hmem _).1 hname) (ih hmem)
  | visit hname _ ih =>
    refine .visit (fun h => hname ((hmem _).2 h)) (ih fun n => ?_)
    rw [List.mem_cons, List.mem_cons, hmem]

/-- **A round of the search** lists what is new in the queue and queues its direct supertypes. -/
theorem Search.round (h : s.Search visited (queue ++ more) listed) :
    ∃ rest, listed = news visited queue ++ rest ∧
      s.Search (visited ++ news visited queue)
        (more ++ (news visited queue).flatMap s.supertypes) rest := by
  induction queue generalizing visited more listed with
  | nil =>
    refine ⟨listed, rfl, ?_⟩
    rwa [show news visited [] = [] from rfl, List.append_nil, List.flatMap_nil, List.append_nil]
  | cons name queue ih =>
    rw [List.cons_append] at h
    cases h with
    | again hname h =>
      rw [news_cons_of_mem hname]
      exact ih h
    | visit hname h =>
      rw [List.append_assoc] at h
      obtain ⟨rest, rfl, hrest⟩ := ih h
      rw [news_cons_of_notMem hname]
      refine ⟨rest, rfl, ?_⟩
      rw [List.append_assoc] at hrest
      refine hrest.congr fun n => ?_
      simp only [List.cons_append, List.mem_cons, List.mem_append]
      exact or_left_comm

/-- Each ring is listed, the nearer ones first. -/
theorem Search.exists_rest (h : s.Search [] [a] listed) (k : Nat) :
    ∃ rest, listed = s.nearer a k ++ rest ∧ s.Search (s.nearer a k) (s.round a k).2 rest := by
  induction k with
  | zero => exact ⟨listed, rfl, h⟩
  | succ k ih =>
    obtain ⟨rest, rfl, hrest⟩ := ih
    rw [← List.append_nil (s.round a k).2] at hrest
    obtain ⟨more, rfl, hmore⟩ := hrest.round
    exact ⟨more, (List.append_assoc _ _ _).symm, hmore⟩

theorem Search.eq_nearer (h : s.Search [] [a] listed) : ∃ n, listed = s.nearer a n := by
  -- the rings up to the length of the list do not all fit in
  have hempty : ∃ n, s.ring a n = [] := by
    by_contra hnone
    rw [not_exists] at hnone
    have hlong : ∀ n, n ≤ (s.nearer a n).length := by
      intro n
      induction n with
      | zero => exact Nat.zero_le _
      | succ n ih =>
        have hpos := List.length_pos_of_ne_nil (hnone n)
        rw [nearer_succ, List.length_append]
        omega
    obtain ⟨rest, hlisted, -⟩ := h.exists_rest (listed.length + 1)
    have hlength := congrArg List.length hlisted
    rw [List.length_append] at hlength
    have := hlong (listed.length + 1)
    omega
  obtain ⟨n, hn⟩ := hempty
  obtain ⟨rest, rfl, hrest⟩ := h.exists_rest (n + 1)
  have hqueue : (s.round a (n + 1)).2 = [] := by
    show (s.ring a n).flatMap s.supertypes = []
    rw [hn, List.flatMap_nil]
  rw [hqueue] at hrest
  cases hrest
  exact ⟨n + 1, List.append_nil _⟩

theorem mem_classes_of_find? {t : ClassTable} {d : ClassDecl} (h : t.find? name = some d) :
    d ∈ t.classes := by
  have hbinary : ∀ key, t.byBinary.get? key = some d → d ∈ t.classes := fun key hkey =>
    List.mem_map.2 ⟨(key, d), Table.get?_eq_some_iff.1 hkey, rfl⟩
  rcases Option.or_eq_some_iff.1 h with h | ⟨-, h⟩
  · exact hbinary _ h
  · obtain ⟨key, -, h⟩ := Option.bind_eq_some_iff.1 h
    exact hbinary key h

theorem mem_mentioned_of_mem_supertypes (h : c ∈ s.supertypes b) : c ∈ s.mentioned := by
  rw [supertypes] at h
  split at h
  · next d hd =>
    refine List.mem_flatMap.2 ⟨d, List.mem_append.2 ?_, h⟩
    rcases Option.or_eq_some_iff.1 hd with hd | ⟨-, hd⟩
    · exact .inl (mem_classes_of_find? hd)
    · exact .inr (mem_classes_of_find? hd)
  · exact absurd h List.not_mem_nil

theorem search_reach {fresh : List String} (hfresh : ∀ n, n ∈ fresh ↔ n ∈ a :: s.mentioned ∧ n ∉ visited)
    (hqueue : ∀ n ∈ queue, n ∈ a :: s.mentioned) :
    s.Search visited queue (s.reach fresh queue) := by
  fun_induction reach s fresh queue generalizing visited with
  | case1 => exact .done
  | case2 fresh name queue hname ih =>
    refine .visit ((hfresh name).1 hname).2 (ih (fun n => ?_) fun n hn => ?_)
    · have hrest : n ∉ name :: visited ↔ n ∉ visited ∧ n ≠ name := by
        rw [List.mem_cons, not_or, and_comm]
      rw [without, List.mem_filter, hfresh, decide_eq_true_eq, hrest, and_assoc]
    · rcases List.mem_append.1 hn with hn | hn
      · exact hqueue n (List.mem_cons_of_mem name hn)
      · exact List.mem_cons_of_mem a (mem_mentioned_of_mem_supertypes hn)
  | case3 fresh name queue hname ih =>
    refine .again ?_ (ih hfresh fun n hn => hqueue n (List.mem_cons_of_mem name hn))
    by_contra hnew
    exact hname ((hfresh name).2 ⟨hqueue name List.mem_cons_self, hnew⟩)

/-- **The search ends for each class of each scope**, with the ancestry of the class. -/
theorem search_ancestry (s : Scope) (a : String) : s.Search [] [a] (s.ancestry a) :=
  search_reach (fun _ => (and_iff_left List.not_mem_nil).symm) fun n hn => by
    rw [List.mem_singleton.1 hn]
    exact List.mem_cons_self

/-- **The ancestry of a class lists all that is reached from it.** -/
theorem mem_ancestry_iff : c ∈ s.ancestry a ↔ s.Reaches a c := by
  refine ⟨reaches_of_mem_ancestry, fun h => ?_⟩
  obtain ⟨k, hk⟩ := reaches_iff.1 h
  obtain ⟨rest, hlisted, -⟩ := (s.search_ancestry a).exists_rest (k + 1)
  rw [hlisted]
  exact List.mem_append_left _ (mem_nearer_iff.2 ⟨k, Nat.lt_succ_self k, hk⟩)

/-- What stands in front of a listed name: the nearer rings, and what stands in front of it in its
ring. -/
theorem exists_ring_of_nearer {before behind : List String} {n : Nat}
    (h : s.nearer a n = before ++ c :: behind) :
    ∃ k front back, s.ring a k = front ++ c :: back ∧ before = s.nearer a k ++ front := by
  induction n generalizing behind with
  | zero => simp [nearer, Scope.round] at h
  | succ n ih =>
    rw [nearer_succ] at h
    rcases List.append_eq_append_iff.1 h with ⟨front, hbefore, hring⟩ | ⟨back, hnearer, hback⟩
    · exact ⟨n, front, behind, hring, hbefore⟩
    · cases back with
      | nil =>
        refine ⟨n, [], behind, ?_, ?_⟩
        · simpa using hback.symm
        · simpa using hnearer.symm
      | cons d back =>
        obtain ⟨rfl, -⟩ := List.cons.inj hback
        exact ih hnearer

/-- **The first hit of the search** is the first one of the nearest ring that has any. -/
theorem findSome?_ancestry {α : Type} (gives : String → Option α) (x : α) :
    (s.ancestry a).findSome? gives = some x ↔
      ∃ k front c back, s.ring a k = front ++ c :: back ∧ gives c = some x ∧
        (∀ b ∈ s.nearer a k, gives b = none) ∧ ∀ b ∈ front, gives b = none := by
  rw [List.findSome?_eq_some_iff]
  constructor
  · rintro ⟨before, c, behind, hlist, hc, hbefore⟩
    obtain ⟨n, hn⟩ := (s.search_ancestry a).eq_nearer
    obtain ⟨k, front, back, hring, rfl⟩ := exists_ring_of_nearer (hn ▸ hlist)
    exact ⟨k, front, c, back, hring, hc, fun b hb => hbefore b (List.mem_append_left _ hb),
      fun b hb => hbefore b (List.mem_append_right _ hb)⟩
  · rintro ⟨k, front, c, back, hring, hc, hnearer, hfront⟩
    obtain ⟨rest, hlisted, -⟩ := (s.search_ancestry a).exists_rest (k + 1)
    refine ⟨s.nearer a k ++ front, c, back ++ rest, ?_, hc, fun b hb => ?_⟩
    · rw [hlisted, nearer_succ, hring]
      simp only [List.append_assoc, List.cons_append]
    · rcases List.mem_append.1 hb with hb | hb
      · exact hnearer b hb
      · exact hfront b hb

/-! ### Stopping at the first hit -/

/-- The search for the first class that gives a name.  It goes on with the direct supertypes only of
classes that give none. -/
inductive Finds (s : Scope) (gives : String → Option String) :
    List String → List String → Option String → Prop
  | nothing {visited : List String} : Finds s gives visited [] none
  | again {visited queue : List String} {name : String} {result : Option String} :
      name ∈ visited → Finds s gives visited queue result →
      Finds s gives visited (name :: queue) result
  | hit {visited queue : List String} {name new : String} : name ∉ visited →
      gives name = some new → Finds s gives visited (name :: queue) (some new)
  | miss {visited queue : List String} {name : String} {result : Option String} :
      name ∉ visited → gives name = none →
      Finds s gives (name :: visited) (queue ++ s.supertypes name) result →
      Finds s gives visited (name :: queue) result

theorem Search.finds (gives : String → Option String) (h : s.Search visited queue listed) :
    s.Finds gives visited queue (listed.findSome? gives) := by
  induction h with
  | done => exact .nothing
  | again hname _ ih => exact .again hname ih
  | @visit visited queue listed name hname _ ih =>
    rw [List.findSome?_cons]
    cases hgives : gives name with
    | none => exact .miss hname hgives ih
    | some new => exact .hit hname hgives

theorem Finds.unique {gives : String → Option String} {x y : Option String}
    (hx : s.Finds gives visited queue x) (hy : s.Finds gives visited queue y) : x = y := by
  induction hx with
  | nothing => cases hy; rfl
  | again hname _ ih =>
    cases hy with
    | again _ h => exact ih h
    | hit hnew => exact absurd hname hnew
    | miss hnew => exact absurd hname hnew
  | hit hname hgives =>
    cases hy with
    | again hmem => exact absurd hmem hname
    | hit _ h => exact hgives.symm.trans h
    | miss _ h => rw [hgives] at h; simp at h
  | miss hname hgives _ ih =>
    cases hy with
    | again hmem => exact absurd hmem hname
    | hit _ h => rw [hgives] at h; simp at h
    | miss _ _ h => exact ih h

end Scope

end SourceRename
