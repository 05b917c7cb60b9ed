import SourceRename.Edit.Plan
import SourceRename.Proofs.Text.Cut

/-!
# A text with replacements put in

`Spliced start rest es result` says what it means to put replacements into a text, without saying
how it is done.  The text `rest`, which begins at offset `start`, is laid out as

    kept₀ ++ covered₁ ++ kept₁ ++ … ++ coveredₖ ++ keptₖ

where `coveredᵢ` are the bytes of the `i`-th span, and the result is

    kept₀ ++ text₁ ++ kept₁ ++ … ++ textₖ ++ keptₖ.

`Edits.splice?` computes this result (`Spliced.splice?_eq`), and for replacements that stand apart,
one ending before the next begins, it computes nothing else (`spliced_of_splice?`).  They have a
result as soon as all ends of the spans lie between characters (`exists_spliced`).
-/

namespace SourceRename

/-- A text from offset `start` on, replacements for it from left to right, and the text with the
replacements put in. -/
inductive Spliced : Nat → List Char → List Edit → List Char → Prop
  | done (start : Nat) (rest : List Char) : Spliced start rest [] rest
  | put {start : Nat} {kept covered rest result : List Char} {e : Edit} {es : List Edit} :
      e.span.start = start + byteLength kept →
      e.span.stop = e.span.start + byteLength covered →
      Spliced e.span.stop rest es result →
      Spliced start (kept ++ covered ++ rest) (e :: es) (kept ++ e.text.toList ++ result)

/-- Each replacement ends before the next one begins. -/
def StandApart (es : List Edit) : Prop := es.Pairwise fun a b => a.span.stop ≤ b.span.start

/-! ### What `splice?` computes -/

theorem Spliced.splice?_eq {start : Nat} {rest : List Char} {es : List Edit} {result : List Char}
    (h : Spliced start rest es result) : Edits.splice? start rest es = some result := by
  induction h with
  | done start rest => rfl
  | @put start kept covered rest result e es hstart hstop _ ih =>
    have hkept : e.span.start - start = byteLength kept := by omega
    have hcovered : e.span.width = byteLength covered := by rw [Span.width]; omega
    rw [Edits.splice?, hkept, hcovered, List.append_assoc, splitBytes?_append]
    simp only [Option.bind_eq_bind, Option.bind_some, splitBytes?_append, ih]
    rfl

theorem spliced_of_splice? {start : Nat} {rest : List Char} {es : List Edit} {result : List Char}
    (hes : StandApart es) (hstart : ∀ e ∈ es, start ≤ e.span.start)
    (h : Edits.splice? start rest es = some result) : Spliced start rest es result := by
  induction es generalizing start rest result with
  | nil =>
    obtain rfl : rest = result := Option.some.inj h
    exact .done start rest
  | cons e es ih =>
    obtain ⟨hhead, htail⟩ := List.pairwise_cons.1 hes
    obtain ⟨⟨kept, rest'⟩, h1, h⟩ := Option.bind_eq_some_iff.1 h
    obtain ⟨⟨covered, rest''⟩, h2, h⟩ := Option.bind_eq_some_iff.1 h
    obtain ⟨tail, h3, h⟩ := Option.bind_eq_some_iff.1 h
    obtain rfl : kept ++ e.text.toList ++ tail = result := Option.some.inj h
    obtain ⟨rfl, hkept⟩ := splitBytes?_eq_some_iff.1 h1
    obtain ⟨rfl, hcovered⟩ := splitBytes?_eq_some_iff.1 h2
    have hle := hstart e (by simp)
    have hspan := e.span.start_le_stop
    rw [← List.append_assoc]
    refine .put (by omega) ?_ (ih htail (fun f hf => hhead f hf) h3)
    rw [hcovered, Span.width]
    omega

/-! ### When there is a result -/

theorem exists_spliced_of_cut (before rest : List Char) {es : List Edit} (hes : StandApart es)
    (hstart : ∀ e ∈ es, byteLength before ≤ e.span.start)
    (hcut : ∀ e ∈ es, Cut (before ++ rest) e.span.start ∧ Cut (before ++ rest) e.span.stop) :
    ∃ result, Spliced (byteLength before) rest es result := by
  induction es generalizing before rest with
  | nil => exact ⟨rest, .done _ _⟩
  | cons e es ih =>
    obtain ⟨hhead, htail⟩ := List.pairwise_cons.1 hes
    obtain ⟨hcut1, hcut2⟩ := hcut e (by simp)
    obtain ⟨kept, covered, rest, rfl, hkept, hcovered⟩ := hcut1.covered hcut2 (hstart e (by simp))
    have hlen : byteLength (before ++ kept ++ covered) = e.span.stop := by
      simp only [byteLength_append]
      omega
    obtain ⟨result, hresult⟩ := ih (before ++ kept ++ covered) rest htail
      (fun f hf => hlen ▸ hhead f hf)
      (fun f hf => by simpa using hcut f (List.mem_cons_of_mem e hf))
    rw [hlen] at hresult
    exact ⟨kept ++ e.text.toList ++ result, .put hkept hcovered hresult⟩

theorem Spliced.cut {start : Nat} {before rest result : List Char} {es : List Edit}
    (h : Spliced start rest es result) (hbefore : byteLength before = start) :
    ∀ e ∈ es, Cut (before ++ rest) e.span.start ∧ Cut (before ++ rest) e.span.stop := by
  induction h generalizing before with
  | done => simp
  | @put start kept covered rest result e es hstart hstop _ ih =>
    have hlen : byteLength (before ++ kept ++ covered) = e.span.stop := by
      simp only [byteLength_append]
      omega
    have htext : before ++ (kept ++ covered ++ rest) = before ++ kept ++ covered ++ rest := by simp
    rw [htext]
    refine List.forall_mem_cons.2 ⟨⟨?_, ?_⟩, ih hlen⟩
    · exact ⟨before ++ kept, covered ++ rest, by simp, by rw [byteLength_append]; omega⟩
    · exact ⟨before ++ kept ++ covered, rest, rfl, hlen⟩

theorem exists_spliced {text : List Char} {es : List Edit} (hes : StandApart es)
    (hcut : ∀ e ∈ es, Cut text e.span.start ∧ Cut text e.span.stop) :
    ∃ result, Spliced 0 text es result :=
  exists_spliced_of_cut [] text hes (fun _ _ => Nat.zero_le _) hcut

end SourceRename
