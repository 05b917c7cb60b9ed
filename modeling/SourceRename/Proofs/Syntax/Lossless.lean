import SourceRename.Proofs.Syntax.Nesting

/-!
# Trees lose nothing

The leaves of a tree that was built for a text are the tokens of the text, whatever nodes were
declared (`lossless_of_resolve`).  So the text of the tree is the text it was built from, and its
width is the number of bytes of the text (`widthAll_eq`).

A tree under construction is read from left to right with its open nodes flattened: `finished`
lists what stands before the innermost open node and in it.  Closing a node and opening one leave
the tokens of this row as they are, and a token adds itself.
-/

namespace SourceRename

namespace Tree

/-! ### Rows of trees -/

theorem tokensAll_append (start : Nat) (xs ys : List Tree) :
    tokensAll start (xs ++ ys) = tokensAll start xs ++ tokensAll (start + widthAll xs) ys := by
  induction xs generalizing start with
  | nil => simp [tokensAll, widthAll]
  | cons x xs ih => simp [tokensAll, widthAll, ih, Nat.add_assoc]

mutual

theorem width_eq : (t : Tree) → t.width = byteLength t.text
  | .token _ s => by rw [width, text, byteLength_toList]
  | .node _ children => by rw [width, text, widthAll_eq children]

theorem widthAll_eq : (ts : List Tree) → widthAll ts = byteLength (textAll ts)
  | [] => rfl
  | t :: ts => by rw [widthAll, textAll, byteLength_append, width_eq t, widthAll_eq ts]

end

mutual

theorem flatMap_tokens (start : Nat) :
    (t : Tree) → (t.tokens start).flatMap (fun u => u.text.toList) = t.text
  | .token _ s => by rw [tokens, text, List.flatMap_singleton]
  | .node _ children => by rw [tokens, text, flatMap_tokensAll start children]

theorem flatMap_tokensAll (start : Nat) :
    (ts : List Tree) → (tokensAll start ts).flatMap (fun u => u.text.toList) = textAll ts
  | [] => rfl
  | t :: ts => by
    rw [tokensAll, textAll, List.flatMap_append, flatMap_tokens start t, flatMap_tokensAll _ ts]

end

end Tree

namespace Outline

/-! ### The finished part of a tree -/

/-- What is finished, from left to right: in front of each open node, and in the innermost one. -/
def finished (current : List Tree) : List Frame → List Tree
  | [] => current.reverse
  | f :: fs => finished f.before fs ++ current.reverse

theorem finished_cons (t : Tree) (current : List Tree) (frames : List Frame) :
    finished (t :: current) frames = finished current frames ++ [t] := by
  cases frames with
  | nil => rw [finished, List.reverse_cons, finished]
  | cons f fs => rw [finished, List.reverse_cons, finished, List.append_assoc]

theorem tokensAll_node (start : Nat) (kind : Kind) (xs children : List Tree) :
    Tree.tokensAll start (xs ++ [.node kind children]) =
      Tree.tokensAll start (xs ++ children) := by
  rw [Tree.tokensAll_append, Tree.tokensAll_append]
  simp [Tree.tokensAll, Tree.tokens]

theorem tokensAll_close {offset : Nat} {current : List Tree} {frames : List Frame}
    {r : List Tree × List Frame} (h : close offset current frames = .ok r) :
    Tree.tokensAll 0 (finished r.1 r.2) = Tree.tokensAll 0 (finished current frames) := by
  induction frames generalizing current with
  | nil =>
    obtain rfl := Except.ok.inj h
    rfl
  | cons f fs ih =>
    rw [close] at h
    split at h
    · obtain rfl := Except.ok.inj h
      rfl
    · split at h
      · simp at h
      · rw [ih h, finished_cons, tokensAll_node, finished]

theorem tokensAll_openAt {offset : Nat} {current : List Tree} {frames : List Frame}
    {ds : List Declaration} {p : Path} (h : openAt offset current frames ds = .ok p) :
    Tree.tokensAll 0 (finished p.current p.frames) =
      Tree.tokensAll 0 (finished current frames) := by
  induction ds generalizing current frames with
  | nil =>
    obtain rfl := Except.ok.inj h
    rfl
  | cons d ds ih =>
    rw [openAt] at h
    split at h
    · obtain rfl := Except.ok.inj h
      rfl
    · split at h
      · simp at h
      · split at h
        · simp at h
        · split at h
          · rw [ih h, finished_cons, tokensAll_node, List.append_nil]
          · rw [ih h, finished, List.reverse_nil, List.append_nil]

theorem tokensAll_settle {offset : Nat} {p q : Path} (h : p.settle offset = .ok q) :
    Tree.tokensAll 0 (finished q.current q.frames) =
      Tree.tokensAll 0 (finished p.current p.frames) := by
  obtain ⟨⟨current, frames⟩, hclose, hopen⟩ := bind_eq_ok_iff.1 h
  rw [tokensAll_openAt hopen, ← tokensAll_close hclose]

/-- Threading tokens that lie side by side adds just these tokens. -/
theorem tokensAll_sweep {start stop : Nat} {ts : List Token} {p q : Path}
    (hside : SideBySide start ts stop) (h : sweep p ts stop = .ok q)
    (hstart : byteLength ((Tree.tokensAll 0 (finished p.current p.frames)).flatMap
      fun t => t.text.toList) = start) :
    Tree.tokensAll 0 (finished q.current q.frames) =
      Tree.tokensAll 0 (finished p.current p.frames) ++ ts := by
  induction hside generalizing p with
  | nil offset =>
    rw [List.append_nil]
    exact tokensAll_settle h
  | @cons t ts stop ht _ ih =>
    rw [sweep_cons] at h
    obtain ⟨r, hr, h⟩ := bind_eq_ok_iff.1 h
    have hsame := tokensAll_settle hr
    have hwidth : Tree.widthAll (finished r.current r.frames) = t.start := by
      rw [Tree.widthAll_eq, ← Tree.flatMap_tokensAll 0, hsame, hstart]
    -- the token comes to stand at the offset it had in the text
    have hadd : Tree.tokensAll 0 (finished (.token t.kind t.text :: r.current) r.frames) =
        Tree.tokensAll 0 (finished p.current p.frames) ++ [t] := by
      rw [finished_cons, Tree.tokensAll_append, hsame, Nat.zero_add, hwidth]
      rfl
    rw [ih h, hadd, List.append_assoc, List.singleton_append]
    rw [hadd, List.flatMap_append, List.flatMap_singleton, byteLength_append, byteLength_toList,
      hstart]
    rfl

end Outline

/-! ### Files -/

/-- The leaves of the tree are the tokens of the text. -/
def SourceFile.Lossless (f : SourceFile) : Prop :=
  ∃ children, f.tree = .node .sourceFile children ∧ Tree.tokensAll 0 children = tokenize f.text

theorem exists_of_ofDeclarations {text : String} {nodes : List Declaration} {tree : Tree}
    (h : Tree.ofDeclarations text nodes = .ok tree) :
    ∃ children, tree = .node .sourceFile children ∧ Tree.tokensAll 0 children = tokenize text := by
  obtain ⟨-, p, hp, hframes, rfl⟩ := ofDeclarations_eq_ok h
  refine ⟨p.current.reverse, rfl, ?_⟩
  have := Outline.tokensAll_sweep (sideBySide_tokenize text) hp rfl
  rw [hframes] at this
  simpa [Outline.finished, Tree.tokensAll] using this

section

variable {name text : String} {language : Language} {facts : List NodeFact} {scope : Scope}
  {file : SourceFile} (h : SourceFile.resolve name language text facts scope = .ok file)
include h

theorem language_of_resolve : file.language = language := by
  obtain ⟨tree, -, rfl⟩ := SourceFile.resolve_eq_ok_iff.1 h
  rfl

/-- **Every file that was resolved is lossless.** -/
theorem lossless_of_resolve : file.Lossless := by
  obtain ⟨tree, htree, rfl⟩ := SourceFile.resolve_eq_ok_iff.1 h
  exact exists_of_ofDeclarations htree

end

end SourceRename
