import SourceRename.Proofs.Syntax.Faithful

/-!
# Nodes begin and end where tokens do

The ends of tokens lie between characters (`Boundary.cut`).  In a file that was resolved each direct
token of a node is a token of the text, and each node begins and ends on the boundary of a token:
those below the root come from declarations that fit the text, and the root covers the text
(`aligned_of_resolve`). -/

namespace SourceRename

theorem SideBySide.cut_stop {start stop : Nat} {ts : List Token} {before : List Char}
    (h : SideBySide start ts stop) (hbefore : byteLength before = start) :
    ∀ t ∈ ts, Cut (before ++ ts.flatMap fun u => u.text.toList) t.stop := by
  induction h generalizing before with
  | nil => exact fun t ht => absurd ht List.not_mem_nil
  | @cons t ts stop _ _ ih =>
    have hstop : byteLength (before ++ t.text.toList) = t.stop := by
      rw [byteLength_append, byteLength_toList, hbefore, Token.stop]
    rw [List.flatMap_cons, ← List.append_assoc]
    exact List.forall_mem_cons.2 ⟨⟨_, _, rfl, hstop⟩, ih hstop⟩

namespace Boundary

variable {text : String} {n : Nat}

theorem cut (h : Boundary text n) : Cut text.toList n := by
  rcases h with rfl | ⟨t, ht, rfl⟩
  · exact ⟨[], text.toList, rfl, rfl⟩
  · have := (sideBySide_tokenize text).cut_stop byteLength_nil t ht
    rwa [List.nil_append, flatMap_tokenize] at this

theorem le (h : Boundary text n) : n ≤ text.utf8ByteSize := by
  have := h.cut.le
  rwa [byteLength_toList] at this

end Boundary

def Span.Aligned (text : String) (s : Span) : Prop := Boundary text s.start ∧ Boundary text s.stop

theorem Span.Aligned.behind {text : String} {s : Span} (h : s.Aligned text) :
    (Span.empty s.stop).Aligned text := ⟨h.2, h.2⟩

theorem aligned_of_mem_tokenize {text : String} {t : Token} (ht : t ∈ tokenize text) :
    t.span.Aligned text := by
  refine ⟨boundary_iff.2 ?_, .inr ⟨t, ht, rfl⟩⟩
  exact List.mem_append_left _ (List.mem_map_of_mem ht)

namespace Site

variable {s q : Site} {t : Token}

theorem mem_tokens_of_mem_preorder (hq : q ∈ s.preorder) (ht : t ∈ q.tokens) : t ∈ s.tokens := by
  induction s using rec_nodes with
  | h s ih =>
    rcases mem_preorder_iff.1 hq with rfl | ⟨c, hc, hq⟩
    · exact ht
    · exact mem_tokensAll_of_mem_elementsFrom (mem_nodes_iff.1 hc) (ih c hc hq)

theorem mem_tokens_of_mem_directTokens (ht : t ∈ s.directTokens) : t ∈ s.tokens :=
  mem_tokensAll_of_mem_elementsFrom (mem_elements_of_mem_directTokens ht)
    (List.mem_singleton_self t)

end Site

/-! ### Files -/

section

variable {file : SourceFile} {s : Site} {t : Token}

theorem SourceFile.Lossless.aligned_token (h : file.Lossless) (hs : s ∈ file.sites)
    (ht : t ∈ s.directTokens) : t.span.Aligned file.text := by
  obtain ⟨children, htree, htokens⟩ := h
  have hroot : t ∈ file.root.tokens :=
    Site.mem_tokens_of_mem_preorder hs (Site.mem_tokens_of_mem_directTokens ht)
  rw [SourceFile.root, htree] at hroot
  exact aligned_of_mem_tokenize (htokens ▸ hroot)

theorem SourceFile.Lossless.aligned_root (h : file.Lossless) :
    file.root.span.Aligned file.text := by
  obtain ⟨children, htree, htokens⟩ := h
  have hwidth : Tree.widthAll children = file.text.utf8ByteSize := by
    rw [Tree.widthAll_eq, ← Tree.flatMap_tokensAll 0, htokens, flatMap_tokenize, byteLength_toList]
  rw [SourceFile.root, htree]
  refine ⟨.inl rfl, boundary_iff.2 (List.mem_append_right _ ?_)⟩
  rw [List.mem_singleton, ← hwidth]
  exact Nat.zero_add _

/-- **Every node of a resolved file begins and ends where tokens do.** -/
theorem aligned_of_resolve {name text : String} {language : Language} {facts : List NodeFact}
    {scope : Scope} (h : SourceFile.resolve name language text facts scope = .ok file)
    (hs : s ∈ file.sites) : s.span.Aligned file.text := by
  rcases List.mem_cons.1 hs with rfl | hbelow
  · exact (lossless_of_resolve h).aligned_root
  · obtain ⟨tree, htree, rfl⟩ := SourceFile.resolve_eq_ok_iff.1 h
    have hfits := exists_tree_iff.1 ⟨tree, htree⟩
    have hsorted : s.declaration ∈
        (SourceFile.declarations facts).mergeSort Outline.comesFirst :=
      map_below_of_ofDeclarations htree ▸ List.mem_map_of_mem hbelow
    exact hfits.bounded _ (List.mem_mergeSort.1 hsorted)

end

end SourceRename
