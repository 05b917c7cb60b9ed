import SourceRename.Proofs.Mixin.Selected
import SourceRename.Proofs.Renames.TypeByType

/-!
# Reading selectors and writing them again

A selector is read by its signs: the first `(` or `:` ends the name, and a semicolon in front of
that ends an owner that begins with `L`.  Put together again (`Selector.text`), the parts are the
text that was read (`Selector.text_of_parse`).  And parts that do not have the signs that end them
are read from their text (`Selector.parse_text`).

So an injection point is written as it was read wherever the new names are the old ones.  For a
method the new name is looked for in more classes than the text names: the walk from the owner finds
the class that declares it, and a second walk goes from there, by the binary name of that class.
`Scope.Leads` is what the two can come to.  If no class there and no part of the text has a new
name, the text of an injection point stays as it is (`Context.renamePoint_of_misses`). -/

namespace SourceRename

/-! ### The parts of a selector -/

namespace Selector

def Member.text : Member → List Char
  | .method descriptor => descriptor.toList
  | .field type => ':' :: type.toList

def text (s : Selector) : String :=
  String.ofList (s.owner.toList ++ s.name.toList ++ s.member.text)

/-- None of the signs that end an owner or a name. -/
def Free (name : String) : Prop := ∀ c ∈ name.toList, c ≠ ';' ∧ endsName c = false

instance (name : String) : Decidable (Free name) :=
  List.decidableBAll (fun c => c ≠ ';' ∧ endsName c = false) name.toList

structure Plain (s : Selector) : Prop where
  owner : s.owner = "" ∨ ∃ name, Free name ∧ s.owner = "L" ++ name ++ ";"
  name : Free s.name
  member : ∀ descriptor, s.member = .method descriptor → descriptor.toList.head? = some '('

variable {s : Selector} {written : String}

theorem append_splitOwner (head : List Char) :
    (splitOwner head).1 ++ (splitOwner head).2 = head := by
  rw [splitOwner]
  split
  · next h =>
    rw [List.append_assoc, List.singleton_append]
    exact (Renames.eq_append_first h.2).symm
  · rfl

/-- **What is read is what is written.** -/
theorem text_of_parse (h : parse written = some s) : s.text = written := by
  have hhead := append_splitOwner (written.toList.takeWhile (!endsName ·))
  have hparts := List.takeWhile_append_dropWhile (p := (!endsName ·)) (l := written.toList)
  rw [parse] at h
  dsimp only at h
  split at h
  · exact absurd h (by simp)
  · next type hrest =>
    obtain rfl := Option.some.inj h
    rw [text, Member.text]
    simp only [String.toList_ofList]
    rw [hhead, ← hrest, hparts, String.ofList_toList]
  · next descriptor _ _ =>
    obtain rfl := Option.some.inj h
    rw [text, Member.text]
    simp only [String.toList_ofList]
    rw [hhead, hparts, String.ofList_toList]

/-- The descriptor of a method and the type of a field begin with a sign that ends the name. -/
theorem Plain.exists_member (h : s.Plain) :
    ∃ c rest, s.member.text = c :: rest ∧ endsName c = true := by
  cases hmember : s.member with
  | field type => exact ⟨':', type.toList, rfl, rfl⟩
  | method descriptor =>
    obtain ⟨rest, hrest⟩ := List.head?_eq_some_iff.1 (h.member descriptor hmember)
    exact ⟨'(', rest, hrest, rfl⟩

theorem Plain.goesOn (h : s.Plain) :
    ∀ c ∈ s.owner.toList ++ s.name.toList, (!endsName c) = true := by
  intro c hc
  have howner : c ∈ s.owner.toList → endsName c = false := by
    rcases h.owner with hnone | ⟨name, hfree, hname⟩
    · rw [hnone]
      exact fun hc => absurd hc List.not_mem_nil
    · rw [hname]
      simp only [String.toList_append, List.mem_append]
      rintro ((hc | hc) | hc)
      · obtain rfl : c = 'L' := by simpa using hc
        rfl
      · exact (hfree c hc).2
      · obtain rfl : c = ';' := by simpa using hc
        rfl
  rcases List.mem_append.1 hc with hc | hc
  · rw [howner hc, Bool.not_false]
  · rw [(h.name c hc).2, Bool.not_false]

theorem Plain.splitOwner_eq (h : s.Plain) :
    splitOwner (s.owner.toList ++ s.name.toList) = (s.owner.toList, s.name.toList) := by
  rcases h.owner with hnone | ⟨name, hfree, hname⟩
  · have hend : ';' ∉ s.name.toList := fun hmem => (h.name ';' hmem).1 rfl
    rw [hnone, show ("" : String).toList = [] from rfl, List.nil_append, splitOwner,
      if_neg fun hboth => hend hboth.2]
  · have howner : s.owner.toList = 'L' :: (name.toList ++ [';']) := by
      rw [hname]
      simp
    have hgoes : ∀ c ∈ 'L' :: name.toList, (c != ';') = true := by
      intro c hc
      rcases List.mem_cons.1 hc with rfl | hc
      · rfl
      · exact bne_iff_ne.2 (hfree c hc).1
    have hwhole : s.owner.toList ++ s.name.toList =
        ('L' :: name.toList) ++ ';' :: s.name.toList := by
      rw [howner]
      simp
    rw [hwhole, splitOwner, if_pos ⟨rfl, by simp⟩, List.takeWhile_append_of_pos hgoes,
      List.dropWhile_append_of_pos hgoes, howner]
    simp

/-- **What is written is read.** -/
theorem parse_text (h : s.Plain) : parse s.text = some s := by
  obtain ⟨c, rest, hmember, hends⟩ := h.exists_member
  have hhead : s.text.toList.takeWhile (!endsName ·) = s.owner.toList ++ s.name.toList := by
    rw [text, String.toList_ofList, List.takeWhile_append_of_pos h.goesOn, hmember]
    simp [hends]
  have hrest : s.text.toList.dropWhile (!endsName ·) = s.member.text := by
    rw [text, String.toList_ofList, List.dropWhile_append_of_pos h.goesOn, hmember]
    simp [hends]
  rw [parse, hhead, hrest, h.splitOwner_eq]
  obtain ⟨owner, name, member⟩ := s
  cases member with
  | field type => simp [Member.text]
  | method descriptor =>
    obtain ⟨rest, hdescriptor⟩ := List.head?_eq_some_iff.1 (h.member descriptor rfl)
    have hback : String.ofList ('(' :: rest) = descriptor := by
      rw [← hdescriptor, String.ofList_toList]
    rw [Member.text, hdescriptor]
    show some (Selector.mk (String.ofList owner.toList) (String.ofList name.toList)
      (.method (String.ofList ('(' :: rest)))) = _
    rw [hback, String.ofList_toList, String.ofList_toList]

end Selector

/-! ### What a selector can come to -/

namespace Scope

variable {s : Scope} {a b c name descriptor : String} {m : Method}

/-- What is reached from the name of a class: its direct supertypes, and the binary name under which
it owns the methods it lists. -/
inductive Leads (s : Scope) (a : String) : String → Prop
  | refl : Leads s a a
  | supertype {b c : String} : Leads s a b → c ∈ s.supertypes b → Leads s a c
  | owner {b : String} {c : ClassDecl} {m : Method} : Leads s a b → s.find? b = some c →
      m ∈ c.methods → Leads s a m.owner.binary

theorem Leads.of_reaches (h : s.Leads a b) (hbc : s.Reaches b c) : s.Leads a c := by
  induction hbc with
  | refl => exact h
  | tail _ hc ih => exact .supertype ih hc

theorem leads_of_declaredMethod? (h : s.declaredMethod? a name descriptor = some m) :
    s.Leads a m.owner.binary := by
  obtain ⟨b, hb, hm⟩ := List.exists_of_findSome?_eq_some h
  obtain ⟨c, hc, hm⟩ := Option.bind_eq_some_iff.1 hm
  exact .owner (.of_reaches .refl (mem_ancestry_iff.1 hb)) hc (List.mem_of_find?_eq_some hm)

end Scope

/-! ### Injection points that stay -/

namespace Context

variable {cx : Context} {s : Selector} {text : String} {m : Method}

theorem methodName?_of_unmapped (hmixins : cx.mixins = .empty)
    (h : ∀ c, cx.file.scope.Reaches m.owner.binary c → cx.renames.find? c = none) :
    cx.methodName? m = none := by
  rw [methodName?_of_no_mixins hmixins, inheritedName?, List.findSome?_eq_none_iff]
  intro c hc
  rw [h c (Scope.mem_ancestry_iff.1 hc), Option.bind_none]

theorem selectedMethod?_of_unmapped {descriptor : String} (hmixins : cx.mixins = .empty)
    (howner : cx.renames.Misses s.owner.toList)
    (hleads : ∀ owner c, s.ownerName? = some owner → cx.file.scope.Leads owner c →
      cx.renames.find? c = none) : cx.selectedMethod? s descriptor = none := by
  rw [selectedMethod?, howner.ofType?_eq, Option.bind_none, Option.or_none]
  cases hname : s.ownerName? with
  | none => rfl
  | some owner =>
    cases hdeclared : cx.file.scope.declaredMethod? owner s.name descriptor with
    | none =>
      rw [Option.bind_eq_bind, Option.bind_some, hdeclared]
      rfl
    | some m =>
      rw [Option.bind_eq_bind, Option.bind_some, hdeclared]
      refine methodName?_of_unmapped hmixins fun c hc => hleads owner c hname ?_
      exact (Scope.leads_of_declaredMethod? hdeclared).of_reaches hc

/-- A selector stays if nothing in it, and nothing that its owner leads to, has a new name. -/
theorem renameSelector_of_misses (hmixins : cx.mixins = .empty)
    (hmisses : cx.renames.Misses s.text.toList)
    (hleads : ∀ owner c, s.ownerName? = some owner → cx.file.scope.Leads owner c →
      cx.renames.find? c = none) : cx.renameSelector s = s.text := by
  rw [Selector.text, String.toList_ofList] at hmisses
  have howner : cx.renames.Misses s.owner.toList :=
    hmisses.of_infix ⟨[], s.name.toList ++ s.member.text, by simp⟩
  have hmember : cx.renames.Misses s.member.text :=
    hmisses.of_infix (List.suffix_append _ _).isInfix
  rw [renameSelector, howner.renameType_eq, Selector.text]
  cases hkind : s.member with
  | method descriptor =>
    rw [hkind] at hmember
    dsimp only
    rw [selectedMethod?_of_unmapped hmixins howner hleads, Option.getD_none,
      hmember.renameDescriptor_eq, Selector.Member.text]
  | field type =>
    rw [hkind] at hmember
    have htype : cx.renames.Misses type.toList :=
      hmember.of_infix (List.suffix_cons ':' type.toList).isInfix
    dsimp only
    rw [howner.ofType?_eq, Option.bind_none, Option.getD_none, htype.renameType_eq,
      Selector.Member.text]

/-- **An injection point stays** if nothing in it, and nothing that its owner leads to, has a new
name. -/
theorem renamePoint_of_misses (hmixins : cx.mixins = .empty)
    (hmisses : cx.renames.Misses text.toList)
    (hleads : ∀ s owner c, Selector.parse text = some s → s.ownerName? = some owner →
      cx.file.scope.Leads owner c → cx.renames.find? c = none) : cx.renamePoint text = text := by
  rw [renamePoint]
  cases hparse : Selector.parse text with
  | some s =>
    have htext : s.text = text := Selector.text_of_parse hparse
    dsimp only
    rw [← htext] at hmisses
    rw [renameSelector_of_misses hmixins hmisses fun owner c => hleads s owner c hparse, htext]
  | none =>
    dsimp only
    split
    · rw [hmisses.renameType_eq, String.ofList_toList]
    · rw [hmisses text List.infix_rfl]
      rfl

/-- **Selectors are read and written without loss.**  A text that is a selector is what its parts
are together; parts without the signs that end them are read from their text; and, where no mixin
class is registered, every text of an injection point stays as it is if no part of it has a new
name, and none of the classes that the owner of a selector leads to. -/
theorem selectors_round_trip :
    (∀ (text : String) (s : Selector), Selector.parse text = some s → s.text = text) ∧
    (∀ s : Selector, s.Plain → Selector.parse s.text = some s) ∧
    ∀ (cx : Context) (text : String), cx.mixins = .empty → cx.renames.Misses text.toList →
      (∀ s owner c, Selector.parse text = some s → s.ownerName? = some owner →
        cx.file.scope.Leads owner c → cx.renames.find? c = none) →
      cx.renamePoint text = text :=
  ⟨fun _ _ => Selector.text_of_parse, fun _ => Selector.parse_text,
    fun _ _ => renamePoint_of_misses⟩

/-! ### A selector of an inherited method -/

/-- A file that sees `A`, its superclass `P` and its interface `I`, while only `X` has a new name.
-/
def elsewhereContext : Context :=
  .ofFile ⟨"", .java, "", .node .sourceFile [], .empty, .empty, siblingScope⟩
    (Renames.empty.declare "X" "Y" fun c => c.addMethod ⟨"f", none⟩ "z") false

theorem mem_of_leads_sibling {c : String} (h : siblingScope.Leads "A" c) : c ∈ ["A", "P", "I"] := by
  have hsupertypes : ∀ b ∈ ["A", "P", "I"],
      ∀ c ∈ siblingScope.supertypes b, c ∈ ["A", "P", "I"] := by decide +kernel
  have howners : ∀ b ∈ ["A", "P", "I"], ∀ c ∈ siblingScope.find? b,
      ∀ m ∈ c.methods, m.owner.binary ∈ ["A", "P", "I"] := by decide +kernel
  induction h with
  | refl => exact List.mem_cons_self
  | supertype _ hc ih => exact hsupertypes _ ih _ hc
  | owner _ hc hm ih => exact howners _ ih _ hc _ hm

/-- The selector of `f`, which `P` declares, is read, written and left as it is. -/
theorem inherited_stays :
    Selector.parse "LA;f()V" = some (siblingSelector "f") ∧
    (siblingSelector "f").text = "LA;f()V" ∧
    Selector.parse (Selector.text ⟨"", "f", .field "[LX;"⟩) = some ⟨"", "f", .field "[LX;"⟩ ∧
    elsewhereContext.renamePoint "LA;f()V" = "LA;f()V" := by
  obtain ⟨hread, hwritten, hstays⟩ := selectors_round_trip
  have hparse : Selector.parse "LA;f()V" = some (siblingSelector "f") := by rfl
  have howner : (siblingSelector "f").ownerName? = some "A" := by decide +kernel
  have hmisses : elsewhereContext.renames.Misses "LA;f()V".toList :=
    Renames.misses_of_not_subset (by decide)
  have hnot : ∀ c ∈ ["A", "P", "I"],
      Naming.internalName c ∉ elsewhereContext.renames.classes.keys := by decide
  have hplain : (⟨"", "f", .field "[LX;"⟩ : Selector).Plain := ⟨.inl rfl, by decide, nofun⟩
  refine ⟨hparse, hread _ _ hparse, hwritten _ hplain, hstays _ _ rfl hmisses ?_⟩
  intro s owner c hs hname hleads
  obtain rfl := Option.some.inj (hparse.symm.trans hs)
  obtain rfl := Option.some.inj (howner.symm.trans hname)
  exact Table.get?_eq_none_iff.2 (hnot c (mem_of_leads_sibling hleads))

end Context

end SourceRename
