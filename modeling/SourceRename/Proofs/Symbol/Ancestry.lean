import SourceRename.Symbol.Ancestry

/-!
# Supertypes by reachability

`Scope.ancestry` is a search with a queue.  What it lists can also be said without one: `Reaches`
goes from a class to its direct supertypes, step by step, and everything listed is reached
(`reaches_of_mem_ancestry`).
-/

namespace SourceRename.Scope

variable {s : Scope} {a b c : String}

/-- Going from a class to direct supertypes, any number of times. -/
inductive Reaches (s : Scope) (a : String) : String → Prop
  | refl : Reaches s a a
  | tail {b c : String} : Reaches s a b → c ∈ s.supertypes b → Reaches s a c

theorem Reaches.head (hb : b ∈ s.supertypes a) (h : s.Reaches b c) : s.Reaches a c := by
  induction h with
  | refl => exact .tail .refl hb
  | tail _ hc ih => exact .tail ih hc

/-- Names that are closed under supertypes hold all that is reached from them. -/
theorem Reaches.closed {P : String → Prop} (hclosed : ∀ b, P b → ∀ c ∈ s.supertypes b, P c)
    (h : s.Reaches a b) (ha : P a) : P b := by
  induction h with
  | refl => exact ha
  | tail _ hc ih => exact hclosed _ ih _ hc

theorem exists_reaches_of_mem_reach {fresh queue : List String} (h : c ∈ s.reach fresh queue) :
    ∃ a ∈ queue, s.Reaches a c := by
  fun_induction reach s fresh queue with
  | case1 => exact absurd h List.not_mem_nil
  | case2 fresh name queue hfresh ih =>
    rcases List.mem_cons.1 h with rfl | h
    · exact ⟨c, List.mem_cons_self, .refl⟩
    · obtain ⟨a, ha, hreaches⟩ := ih h
      rcases List.mem_append.1 ha with ha | ha
      · exact ⟨a, List.mem_cons_of_mem name ha, hreaches⟩
      · exact ⟨name, List.mem_cons_self, .head ha hreaches⟩
  | case3 fresh name queue hfresh ih =>
    obtain ⟨a, ha, hreaches⟩ := ih h
    exact ⟨a, List.mem_cons_of_mem name ha, hreaches⟩

/-- **All that the ancestry of a class lists is reached from the class.** -/
theorem reaches_of_mem_ancestry (h : c ∈ s.ancestry a) : s.Reaches a c := by
  obtain ⟨b, hb, hreaches⟩ := exists_reaches_of_mem_reach h
  exact List.mem_singleton.1 hb ▸ hreaches

end SourceRename.Scope
