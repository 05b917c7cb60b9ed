import Mathlib.Data.List.Nodup
import SourceRename.Proofs.Syntax.Faithful

/-!
# Each node once

Kind and span tell the nodes of a file that was resolved from facts apart (`nodup_keys_of_resolve`):
the nodes below the root are the declarations, and facts of one kind and span are one declaration.
Where a file lists each node once, so does every part of it.
-/

namespace SourceRename

theorem nodup_eraseDups {α : Type} [BEq α] [LawfulBEq α] (xs : List α) : xs.eraseDups.Nodup := by
  induction h : xs.length using Nat.strongRecOn generalizing xs with
  | ind n ih =>
    cases xs with
    | nil => exact List.nodup_nil
    | cons x xs =>
      have hlength : (xs.filter fun y => !y == x).length < n := by
        have := List.length_filter_le (fun y => !y == x) xs
        rw [List.length_cons] at h
        omega
      rw [List.eraseDups_cons, List.nodup_cons, List.mem_eraseDups]
      exact ⟨fun hx => by simp at hx, ih _ hlength _ rfl⟩

def Declaration.key (d : Declaration) : Kind × Span := (d.kind, d.span)

theorem Declaration.key_injective : Function.Injective Declaration.key := by
  rintro ⟨kind, span⟩ ⟨kind', span'⟩ h
  obtain ⟨rfl, rfl⟩ := Prod.mk.inj h
  rfl

namespace Site

variable {s q : Site}

theorem map_key (sites : List Site) :
    sites.map key = (sites.map declaration).map Declaration.key := by
  rw [List.map_map]
  rfl

theorem nodes_sublist_below (s : Site) : s.nodes.Sublist s.below := by
  rw [below_eq]
  induction s.nodes with
  | nil => exact List.Sublist.slnil
  | cons c cs ih =>
    rw [List.flatMap_cons, preorder, List.cons_append]
    exact (ih.trans (List.sublist_append_right _ _)).cons_cons c

theorem isInfix_preorder (h : q ∈ s.preorder) : q.preorder <:+: s.preorder := by
  induction s using rec_nodes with
  | h s ih =>
    rcases mem_preorder_iff.1 h with rfl | ⟨c, hc, hq⟩
    · exact List.infix_refl _
    · have hbelow : c.preorder <:+: s.below := by
        rw [below_eq]
        exact List.infix_flatMap_of_mem hc preorder
      exact ((ih c hc hq).trans hbelow).trans (List.suffix_cons s s.below).isInfix

theorem preorder_sublist (h : q ∈ s.preorder) : q.preorder.Sublist s.preorder :=
  (isInfix_preorder h).sublist

variable (hs : s.preorder.Nodup) (hq : q ∈ s.preorder)
include hs hq

theorem nodup_preorder : q.preorder.Nodup := (preorder_sublist hq).nodup hs

theorem nodup_nodes : q.nodes.Nodup :=
  q.nodes_sublist_below.nodup (List.nodup_cons.1 (nodup_preorder hs hq)).2

end Site

namespace Tree

/-- A tree from declarations that are pairwise different lists each kind and span once: what lies
below the root is the declarations, and none of them is a file. -/
theorem nodup_of_ofDeclarations {text : String} {nodes : List Declaration} {tree : Tree}
    (hnodes : nodes.Nodup) (h : ofDeclarations text nodes = .ok tree) :
    ((Site.root tree).preorder.map Site.declaration).Nodup := by
  obtain ⟨hcheck, -⟩ := ofDeclarations_eq_ok h
  have hkind : (Site.root tree).kind = .sourceFile := by
    obtain ⟨children, rfl, -, -⟩ := threaded_of_ofDeclarations h
    rfl
  have hbelow := map_below_of_ofDeclarations h
  have hroot : (Site.root tree).declaration ∉ (Site.root tree).below.map Site.declaration := by
    rw [hbelow, List.mem_mergeSort]
    exact fun hr => (Outline.check_eq_ok_iff.1 (hcheck _ hr)).1.2.1 hkind
  have hnodup : ((Site.root tree).below.map Site.declaration).Nodup := by
    rw [hbelow]
    exact (List.mergeSort_perm nodes _).nodup_iff.2 hnodes
  exact List.nodup_cons.2 ⟨hroot, hnodup⟩

end Tree

section

variable {name text : String} {language : Language} {facts : List NodeFact} {scope : Scope}
  {file : SourceFile} (h : SourceFile.resolve name language text facts scope = .ok file)
include h

theorem nodup_declarations_of_resolve : (file.sites.map Site.declaration).Nodup := by
  obtain ⟨tree, htree, rfl⟩ := SourceFile.resolve_eq_ok_iff.1 h
  exact Tree.nodup_of_ofDeclarations (nodup_eraseDups _) htree

/-- **Every file that was resolved** lists each kind and span once. -/
theorem nodup_keys_of_resolve : (file.sites.map Site.key).Nodup := by
  rw [Site.map_key]
  exact (nodup_declarations_of_resolve h).map Declaration.key_injective

end

end SourceRename
