import SourceRename.Symbol.ClassTable

/-!
# Supertypes, nearest first

`Scope.ancestry` lists a class and all its supertypes breadth first: a class before its
supertypes, the superclass before the interfaces, each name once.  Supertypes may form cycles and
may be unknown; the search ends because only finitely many names occur in a scope.
-/

namespace SourceRename.Scope

def without (names : List String) (name : String) : List String := names.filter (· ≠ name)

theorem length_without_lt {names : List String} {name : String} (h : name ∈ names) :
    (without names name).length < names.length :=
  List.length_filter_lt_length_iff_exists.2 ⟨name, h, by simp⟩

/-- The names reached from a queue, breadth first.  Only names still in `fresh` count, and each is
taken out when it is reached. -/
def reach (s : Scope) (fresh queue : List String) : List String :=
  match queue with
  | [] => []
  | name :: queue =>
    if name ∈ fresh then
      name :: s.reach (without fresh name) (queue ++ s.supertypes name)
    else s.reach fresh queue
termination_by (fresh.length, queue.length)
decreasing_by
  · rename_i h
    exact Prod.Lex.left _ _ (length_without_lt h)
  · exact Prod.Lex.right _ (by simp)

theorem reach_nil (s : Scope) (fresh : List String) : s.reach fresh [] = [] := by rw [reach]

theorem reach_cons (s : Scope) (fresh queue : List String) (name : String) :
    s.reach fresh (name :: queue) =
      if name ∈ fresh then
        name :: s.reach (without fresh name) (queue ++ s.supertypes name)
      else s.reach fresh queue := by
  rw [reach]

/-- A class and its supertypes, nearest first. -/
def ancestry (s : Scope) (name : String) : List String :=
  s.reach (name :: s.mentioned) [name]

/-- The method that a class or the nearest of its supertypes declares. -/
def declaredMethod? (s : Scope) (owner name descriptor : String) : Option Method :=
  (s.ancestry owner).findSome? fun c => (s.find? c).bind (·.method? name descriptor)

end SourceRename.Scope
