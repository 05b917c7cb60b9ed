import Mathlib.Data.List.Basic
import SourceRename.Proofs.Syntax.Geometry
import SourceRename.Rename.Kotlin

/-!
# The nodes that a Kotlin walk visits

The walk skips nodes and changes their order, but it only visits nodes of the file
(`mem_preorder_of_mem_kotlinOrder`), and none of them after a node that lies below it:

    s.kotlinOrder.Pairwise fun p q => q ∈ p.below ∨ p.span.Apart q.span

(`pairwise_kotlinOrder`).  So where the walk turns around, it only swaps nodes that stand apart.
The proofs follow the walk: the visits below a node are taken from the visits of its children
(`kotlinOrder_eq`), and from each child once.  The visits from a node on to the last one below it
are one stretch (`isInfix_kotlinOrder`), and that of a qualified name begins with its last segment
(`kotlinOrder_of_lastSegment?`). -/

namespace SourceRename.Site

variable {s p q : Site}

/-! ### What is visited below a node -/

theorem kotlinForest_eq (above : List Place) (start : Nat) (ts : List Tree) :
    kotlinForest above start ts =
      ((elementsFrom above start ts).filterMap Element.node?).map fun c => (c, c.kotlinOrder) := by
  induction ts generalizing start with
  | nil => rfl
  | cons t ts ih =>
    cases t with
    | token kind text =>
      rw [kotlinForest, ih]
      rfl
    | node kind children =>
      rw [kotlinForest, ih]
      rfl

theorem kotlinOrder_eq (s : Site) :
    s.kotlinOrder = s :: s.visitsBelow (s.nodes.map fun c => (c, c.kotlinOrder)) := by
  rw [kotlinOrder, kotlinForest_eq]
  rfl

/-- The visits at the place of a child are those of one child there, or none. -/
theorem visitsOf_cases (nodes : List Site) (child : Option Site) :
    visitsOf (nodes.map fun c => (c, c.kotlinOrder)) child = [] ∨
      ∃ d, child = some d ∧ ∃ c ∈ nodes, c.key = d.key ∧
        visitsOf (nodes.map fun c => (c, c.kotlinOrder)) child = c.kotlinOrder := by
  cases child with
  | none => exact .inl rfl
  | some d =>
    rw [visitsOf, List.find?_map]
    cases hfind : nodes.find? ((fun part => part.1.key == d.key) ∘ fun c => (c, c.kotlinOrder)) with
    | none => exact .inl rfl
    | some c =>
      have hkey : c.key = d.key := by simpa using List.find?_some hfind
      exact .inr ⟨d, rfl, c, List.mem_of_find?_eq_some hfind, hkey, rfl⟩

theorem mem_of_mem_visitsOf {nodes : List Site} {child : Option Site}
    (h : q ∈ visitsOf (nodes.map fun c => (c, c.kotlinOrder)) child) :
    ∃ d, child = some d ∧ ∃ c ∈ nodes, c.key = d.key ∧ q ∈ c.kotlinOrder := by
  rcases visitsOf_cases nodes child with hnil | ⟨d, hd, c, hc, hkey, heq⟩
  · rw [hnil] at h
    exact absurd h List.not_mem_nil
  · exact ⟨d, hd, c, hc, hkey, heq ▸ h⟩

/-- Each visit below a node is one of a child, and all visits of the child are one stretch. -/
theorem exists_child_of_mem_visitsBelow
    (h : q ∈ s.visitsBelow (s.nodes.map fun c => (c, c.kotlinOrder))) :
    ∃ c ∈ s.nodes, q ∈ c.kotlinOrder ∧
      c.kotlinOrder <:+: s.visitsBelow (s.nodes.map fun c => (c, c.kotlinOrder)) := by
  have hone : ∀ child, q ∈ visitsOf (s.nodes.map fun c => (c, c.kotlinOrder)) child →
      ∃ c ∈ s.nodes, q ∈ c.kotlinOrder ∧
        c.kotlinOrder <:+: visitsOf (s.nodes.map fun c => (c, c.kotlinOrder)) child := by
    intro child hq
    rcases visitsOf_cases s.nodes child with hnil | ⟨-, -, c, hc, -, heq⟩
    · rw [hnil] at hq
      exact absurd hq List.not_mem_nil
    · rw [heq] at hq ⊢
      exact ⟨c, hc, hq, List.infix_refl _⟩
  have hleft : ∀ {xs : List Site} (ys : List Site),
      (∃ c ∈ s.nodes, q ∈ c.kotlinOrder ∧ c.kotlinOrder <:+: xs) →
      ∃ c ∈ s.nodes, q ∈ c.kotlinOrder ∧ c.kotlinOrder <:+: xs ++ ys :=
    fun ys ⟨c, hc, hq, hin⟩ => ⟨c, hc, hq, hin.trans (List.prefix_append _ ys).isInfix⟩
  have hright : ∀ (xs : List Site) {ys : List Site},
      (∃ c ∈ s.nodes, q ∈ c.kotlinOrder ∧ c.kotlinOrder <:+: ys) →
      ∃ c ∈ s.nodes, q ∈ c.kotlinOrder ∧ c.kotlinOrder <:+: xs ++ ys :=
    fun xs _ ⟨c, hc, hq, hin⟩ => ⟨c, hc, hq, hin.trans (List.suffix_append xs _).isInfix⟩
  rw [visitsBelow] at h ⊢
  split at h
  · rcases List.mem_append.1 h with h | h
    · exact hleft _ (hone _ h)
    · exact hright _ (hone _ h)
  · rcases List.mem_append.1 h with h | h
    · rcases List.mem_append.1 h with h | h
      · exact hleft _ (hleft _ (hone _ h))
      · exact hleft _ (hright _ (hone _ h))
    · exact hright _ (hone _ h)
  · rw [List.flatMap_map] at h ⊢
    obtain ⟨c, hc, hq⟩ := List.mem_flatMap.1 h
    exact ⟨c, hc, hq, List.infix_flatMap_of_mem hc kotlinOrder⟩

/-- **A Kotlin walk visits nodes of the file only.** -/
theorem mem_preorder_of_mem_kotlinOrder (h : q ∈ s.kotlinOrder) : q ∈ s.preorder := by
  induction s using rec_nodes with
  | h s ih =>
    rw [kotlinOrder_eq] at h
    rcases List.mem_cons.1 h with rfl | h
    · exact List.mem_cons_self
    · obtain ⟨c, hc, hq, -⟩ := exists_child_of_mem_visitsBelow h
      exact mem_preorder_iff.2 (.inr ⟨c, hc, ih c hc hq⟩)

/-- The visits from a node on to the last one below it are one stretch. -/
theorem isInfix_kotlinOrder (h : q ∈ s.kotlinOrder) : q.kotlinOrder <:+: s.kotlinOrder := by
  induction s using rec_nodes with
  | h s ih =>
    rw [kotlinOrder_eq] at h
    rcases List.mem_cons.1 h with rfl | h
    · exact List.infix_refl _
    · obtain ⟨c, hc, hq, hin⟩ := exists_child_of_mem_visitsBelow h
      rw [kotlinOrder_eq s]
      exact ((ih c hc hq).trans hin).trans (List.suffix_cons _ _).isInfix

def lastSegment? (s : Site) : Option Site :=
  match s.kind with
  | .userType => s.child? .nameRef
  | .dotQualified => s.selector?
  | _ => none

theorem mem_nodes_of_lastSegment? (h : s.lastSegment? = some q) : q ∈ s.nodes := by
  unfold lastSegment? at h
  split at h
  · exact mem_nodes_of_child? h
  · exact mem_nodes_of_expressions
      (List.mem_of_getLast? (Option.filter_eq_some_iff.1 h).1)
  · simp at h

theorem visitsOf_of_unique {nodes : List Site} (hq : q ∈ nodes)
    (hone : ∀ c ∈ nodes, c.key = q.key → c = q) :
    visitsOf (nodes.map fun c => (c, c.kotlinOrder)) (some q) = q.kotlinOrder := by
  rw [visitsOf, List.find?_map]
  cases hfind : nodes.find? ((fun part => part.1.key == q.key) ∘ fun c => (c, c.kotlinOrder)) with
  | none => exact absurd (List.find?_eq_none.1 hfind q hq) (by simp)
  | some c =>
    have hkey : c.key = q.key := by simpa using List.find?_some hfind
    rw [hone c (List.mem_of_find?_eq_some hfind) hkey]
    rfl

theorem visitsOf_self (hq : q ∈ s.nodes) (hwide : q.span.start < q.span.stop) :
    visitsOf (s.nodes.map fun c => (c, c.kotlinOrder)) (some q) = q.kotlinOrder := by
  refine visitsOf_of_unique hq fun c hc hkey => ?_
  have hspan : c.span = q.span := congrArg Prod.snd hkey
  by_contra hne
  -- two children with one span are empty
  have hapart := apart_of_mem_nodes hc hq hne
  rw [hspan] at hapart
  rcases hapart with h | h
  · omega
  · omega

/-- **The last segment of a qualified name is visited first**, right behind the name itself. -/
theorem kotlinOrder_of_lastSegment? (h : s.lastSegment? = some q)
    (hwide : q.span.start < q.span.stop) :
    ∃ behind, s.kotlinOrder = s :: q :: behind := by
  have hself := visitsOf_self (mem_nodes_of_lastSegment? h) hwide
  have hbelow : ∃ behind, s.visitsBelow (s.nodes.map fun c => (c, c.kotlinOrder)) =
      q.kotlinOrder ++ behind := by
    unfold lastSegment? at h
    rw [visitsBelow]
    split at h
    · next hkind =>
      rw [hkind, h, hself]
      exact ⟨_, List.append_assoc _ _ _⟩
    · next hkind =>
      rw [hkind, h, hself]
      exact ⟨_, rfl⟩
    · simp at h
  obtain ⟨behind, hbelow⟩ := hbelow
  rw [kotlinOrder_eq s, hbelow, kotlinOrder_eq q]
  exact ⟨_, rfl⟩

/-! ### The order of the visits -/

theorem apart_of_mem_kotlinOrder {a b : Site} (ha : a ∈ s.nodes) (hb : b ∈ s.nodes) (hne : a ≠ b)
    (hp : p ∈ a.kotlinOrder) (hq : q ∈ b.kotlinOrder) : p.span.Apart q.span := by
  have hin := within_of_mem_preorder (mem_preorder_of_mem_kotlinOrder hp)
  have hin' := within_of_mem_preorder (mem_preorder_of_mem_kotlinOrder hq)
  rcases apart_of_mem_nodes ha hb hne with h | h
  · exact .inl (by omega)
  · exact .inr (by omega)

theorem apart_of_mem_visitsOf {c d : Option Site}
    (hkeys : ∀ a, c = some a → ∀ b, d = some b → a.key ≠ b.key)
    (hp : p ∈ visitsOf (s.nodes.map fun c => (c, c.kotlinOrder)) c)
    (hq : q ∈ visitsOf (s.nodes.map fun c => (c, c.kotlinOrder)) d) : p.span.Apart q.span := by
  obtain ⟨a, hca, a', ha', hkey, hp⟩ := mem_of_mem_visitsOf hp
  obtain ⟨b, hdb, b', hb', hkey', hq⟩ := mem_of_mem_visitsOf hq
  refine apart_of_mem_kotlinOrder ha' hb' ?_ hp hq
  rintro rfl
  exact hkeys a hca b hdb (hkey.symm.trans hkey')

theorem key_ne_of_child? {a b : Site} {j k : Kind} (hne : j ≠ k) (ha : s.child? j = some a)
    (hb : s.child? k = some b) : a.key ≠ b.key := by
  intro hkey
  have hkind : a.kind = b.kind := congrArg Prod.fst hkey
  exact hne (by rw [← Site.kind_of_child? ha, hkind, Site.kind_of_child? hb])

theorem key_ne_of_selector? {a b : Site} (ha : s.selector? = some a) (hb : s.qualifier? = some b) :
    a.key ≠ b.key := by
  have hall := (Option.filter_eq_some_iff.1 ha).2
  rw [hb, Option.all_some, bne_iff_ne] at hall
  exact hall.symm

/-- **Of two nodes that a Kotlin walk visits**, the second one lies below the first one, or they
stand apart. -/
theorem pairwise_kotlinOrder (s : Site) :
    s.kotlinOrder.Pairwise fun p q => q ∈ p.below ∨ p.span.Apart q.span := by
  induction s using rec_nodes with
  | h s ih =>
    have hone : ∀ child, (visitsOf (s.nodes.map fun c => (c, c.kotlinOrder)) child).Pairwise
        fun p q => q ∈ p.below ∨ p.span.Apart q.span := by
      intro child
      rcases visitsOf_cases s.nodes child with hnil | ⟨-, -, c, hc, -, heq⟩
      · rw [hnil]
        exact .nil
      · rw [heq]
        exact ih c hc
    rw [kotlinOrder_eq]
    refine List.pairwise_cons.2 ⟨fun q hq => .inl ?_, ?_⟩
    · obtain ⟨c, hc, hq, -⟩ := exists_child_of_mem_visitsBelow hq
      exact mem_below_iff.2 ⟨c, hc, mem_preorder_of_mem_kotlinOrder hq⟩
    · rw [visitsBelow]
      split
      · exact List.pairwise_append.2 ⟨hone _, hone _, fun p hp q hq =>
          .inr (apart_of_mem_visitsOf (fun a ha b hb => key_ne_of_selector? ha hb) hp hq)⟩
      · refine List.pairwise_append.2 ⟨List.pairwise_append.2 ⟨hone _, hone _, ?_⟩, hone _, ?_⟩
        · exact fun p hp q hq => .inr (apart_of_mem_visitsOf
            (fun a ha b hb => key_ne_of_child? (by decide) ha hb) hp hq)
        · intro p hp q hq
          rcases List.mem_append.1 hp with hp | hp
          · exact .inr (apart_of_mem_visitsOf
              (fun a ha b hb => key_ne_of_child? (by decide) ha hb) hp hq)
          · exact .inr (apart_of_mem_visitsOf
              (fun a ha b hb => key_ne_of_child? (by decide) ha hb) hp hq)
      · rw [List.flatMap_map, List.pairwise_flatMap]
        refine ⟨ih, s.pairwise_nodes.imp fun {a b} hab p hp q hq => .inr (.inl ?_)⟩
        have hin := within_of_mem_preorder (mem_preorder_of_mem_kotlinOrder hp)
        have hin' := within_of_mem_preorder (mem_preorder_of_mem_kotlinOrder hq)
        omega

/-- What is visited before a node lies around it or stands apart from it. -/
theorem below_or_apart_of_visited {before behind : List Site}
    (hlist : s.kotlinOrder = before ++ q :: behind) (hp : p ∈ before) :
    q ∈ p.below ∨ p.span.Apart q.span := by
  have h := s.pairwise_kotlinOrder
  rw [hlist] at h
  exact (List.pairwise_append.1 h).2.2 p hp q List.mem_cons_self

end SourceRename.Site
