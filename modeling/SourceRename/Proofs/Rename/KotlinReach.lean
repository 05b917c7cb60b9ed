import SourceRename.Proofs.Rename.KotlinOrder
import SourceRename.Proofs.Syntax.Distinct
import SourceRename.Run.Basic

/-!
# Which nodes a Kotlin walk reaches

In a file that was resolved from facts about its nodes, the walk goes from a node into some of its
children, and into each of them once (`kotlinOrder_eq_flatMap`):

    s.kotlinOrder = s :: s.walkedNodes.flatMap kotlinOrder

These are all of them, but in a qualified expression and in a qualified type.  There a child has to
be one of the parts that are looked for, and what lies in another child is passed over.  So a node
is reached if and only if each step on the way to it is one the walk takes (`mem_kotlinOrder_iff`),
and no node is reached twice (`nodup_kotlinOrder`).

In a tree that declares every node nothing is passed over.  Where `x[i].n` is a qualified expression
of three names, because nobody declared the receiver `x[i]`, the last name before the dot is taken
for the receiver and the one in front of it is left out.
-/

namespace SourceRename

namespace Site

variable {s p q c n : Site}

/-! ### The children that are walked -/

/-- The children of a node that a Kotlin walk goes into, in the order of the visits. -/
def walkedNodes (s : Site) : List Site :=
  match s.kind with
  | .dotQualified => s.selector?.toList ++ s.qualifier?.toList
  | .userType =>
    (s.child? .nameRef).toList ++ (s.child? .userType).toList ++ (s.child? .typeArgs).toList
  | _ => s.nodes

theorem mem_nodes_of_selector? (h : s.selector? = some c) : c ∈ s.nodes :=
  mem_nodes_of_expressions (List.mem_of_getLast? (Option.filter_eq_some_iff.1 h).1)

theorem mem_nodes_of_walkedNodes (h : c ∈ s.walkedNodes) : c ∈ s.nodes := by
  unfold walkedNodes at h
  split at h
  · rcases List.mem_append.1 h with h | h
    · exact mem_nodes_of_selector? (Option.mem_toList.1 h)
    · exact mem_nodes_of_qualifier? (Option.mem_toList.1 h)
  · rcases List.mem_append.1 h with h | h
    · rcases List.mem_append.1 h with h | h
      · exact mem_nodes_of_child? (Option.mem_toList.1 h)
      · exact mem_nodes_of_child? (Option.mem_toList.1 h)
    · exact mem_nodes_of_child? (Option.mem_toList.1 h)
  · exact h

theorem not_mem_preorder_of_mem_nodes (hp : p ∈ s.preorder) (hc : c ∈ p.nodes) :
    s ∉ c.preorder := by
  intro hs
  have hlong : c.ancestors.length = p.ancestors.length + 1 := by
    rw [ancestors, above_of_mem_nodes hc, List.length_cons]
  have h1 := (ancestors_suffix hp).length_le
  have h2 := (ancestors_suffix hs).length_le
  omega

/-! ### Nodes that are told apart by kind and span -/

/-- The nodes of a tree are told apart by kind and span. -/
def Distinct (s : Site) : Prop := (s.preorder.map key).Nodup

theorem Distinct.of_mem (h : s.Distinct) (hq : q ∈ s.preorder) : q.Distinct :=
  ((preorder_sublist hq).map key).nodup h

theorem Distinct.of_mem_nodes (h : s.Distinct) (hc : c ∈ s.nodes) : c.Distinct :=
  h.of_mem (List.mem_cons_of_mem s (mem_below_of_mem_nodes hc))

theorem Distinct.eq_of_key (h : s.Distinct) (hc : c ∈ s.nodes) (hq : q ∈ s.nodes)
    (hkey : c.key = q.key) : c = q :=
  List.inj_on_of_nodup_map h (List.mem_cons_of_mem s (mem_below_of_mem_nodes hc))
    (List.mem_cons_of_mem s (mem_below_of_mem_nodes hq)) hkey

theorem Distinct.visitsOf_eq (h : s.Distinct) {child : Option Site}
    (hchild : ∀ c, child = some c → c ∈ s.nodes) :
    visitsOf (s.nodes.map fun c => (c, c.kotlinOrder)) child =
      child.toList.flatMap kotlinOrder := by
  cases child with
  | none => rfl
  | some c =>
    have hc := hchild c rfl
    rw [visitsOf_of_unique hc fun d hd hkey => h.eq_of_key hd hc hkey, Option.toList_some,
      List.flatMap_singleton]

/-- **A walk visits a node and then what lies in the children it goes into.** -/
theorem Distinct.kotlinOrder_eq_flatMap (h : s.Distinct) :
    s.kotlinOrder = s :: s.walkedNodes.flatMap kotlinOrder := by
  rw [kotlinOrder_eq, visitsBelow]
  split
  · next hkind =>
    rw [walkedNodes, hkind, h.visitsOf_eq fun _ => mem_nodes_of_selector?,
      h.visitsOf_eq fun _ => mem_nodes_of_qualifier?, ← List.flatMap_append]
  · next hkind =>
    rw [walkedNodes, hkind, h.visitsOf_eq fun _ => mem_nodes_of_child?,
      h.visitsOf_eq fun _ => mem_nodes_of_child?, h.visitsOf_eq fun _ => mem_nodes_of_child?,
      ← List.flatMap_append, ← List.flatMap_append]
  · next hexpression htype =>
    rw [walkedNodes, List.flatMap_map]
    split
    · next hkind => exact absurd hkind hexpression
    · next hkind => exact absurd hkind htype
    · rfl

theorem Distinct.nodup_walkedNodes (h : s.Distinct) : s.walkedNodes.Nodup := by
  have hone : ∀ child : Option Site, child.toList.Nodup := by
    intro child
    cases child with
    | none => exact List.nodup_nil
    | some c => exact List.nodup_singleton c
  have htwo : ∀ {a b : Option Site}, (∀ x, a = some x → ∀ y, b = some y → x.key ≠ y.key) →
      ∀ x ∈ a.toList, x ∉ b.toList := fun hkeys x hx hy =>
    hkeys x (Option.mem_toList.1 hx) x (Option.mem_toList.1 hy) rfl
  rw [walkedNodes]
  split
  · exact List.nodup_append'.2 ⟨hone _, hone _, htwo fun a ha b hb => key_ne_of_selector? ha hb⟩
  · refine List.nodup_append'.2 ⟨List.nodup_append'.2 ⟨hone _, hone _, ?_⟩, hone _, ?_⟩
    · exact htwo fun a ha b hb => key_ne_of_child? (by decide) ha hb
    · intro x hx
      rcases List.mem_append.1 hx with hx | hx
      · exact htwo (fun a ha b hb => key_ne_of_child? (by decide) ha hb) x hx
      · exact htwo (fun a ha b hb => key_ne_of_child? (by decide) ha hb) x hx
  · exact nodup_nodes h.of_map List.mem_cons_self

/-! ### What is reached -/

/-- On the way from the root to the node, each step goes into a child that is walked. -/
def WalksTo (root n : Site) : Prop :=
  ∀ p ∈ root.preorder, ∀ c ∈ p.nodes, n ∈ c.preorder → c ∈ p.walkedNodes

/-- **A node is reached if and only if each step on the way to it is walked.** -/
theorem mem_kotlinOrder_iff (h : s.Distinct) :
    n ∈ s.kotlinOrder ↔ n ∈ s.preorder ∧ s.WalksTo n := by
  induction s using rec_nodes with
  | h s ih =>
    rw [h.kotlinOrder_eq_flatMap, List.mem_cons, List.mem_flatMap]
    constructor
    · rintro (rfl | ⟨c, hwalked, hn⟩)
      · exact ⟨List.mem_cons_self, fun p hp c hc hin =>
          absurd hin (not_mem_preorder_of_mem_nodes hp hc)⟩
      · have hc := mem_nodes_of_walkedNodes hwalked
        obtain ⟨hmem, hway⟩ := (ih c hc (h.of_mem_nodes hc)).1 hn
        refine ⟨mem_preorder_iff.2 (.inr ⟨c, hc, hmem⟩), fun p hp d hd hin => ?_⟩
        rcases mem_preorder_iff.1 hp with rfl | ⟨b, hb, hpb⟩
        · rwa [eq_of_mem_preorder hd hc hin hmem]
        · -- the way to the node leads through one child only
          have hnb : n ∈ b.preorder := preorder_trans hpb
            (preorder_trans (List.mem_cons_of_mem p (mem_below_of_mem_nodes hd)) hin)
          obtain rfl := eq_of_mem_preorder hb hc hnb hmem
          exact hway p hpb d hd hin
    · rintro ⟨hn, hway⟩
      rcases mem_preorder_iff.1 hn with rfl | ⟨c, hc, hmem⟩
      · exact .inl rfl
      · refine .inr ⟨c, hway s List.mem_cons_self c hc hmem, ?_⟩
        refine (ih c hc (h.of_mem_nodes hc)).2 ⟨hmem, fun p hp d hd hin => ?_⟩
        exact hway p (mem_preorder_iff.2 (.inr ⟨c, hc, hp⟩)) d hd hin

/-- **What is visited before a node does not lie in it.** -/
theorem pairwise_not_mem_preorder (h : s.Distinct) :
    s.kotlinOrder.Pairwise fun p q => p ∉ q.preorder := by
  have hbelow : ∀ {s c : Site}, c ∈ s.walkedNodes → ∀ {q}, q ∈ c.kotlinOrder → q ∈ c.preorder :=
    fun _ _ => mem_preorder_of_mem_kotlinOrder
  induction s using rec_nodes with
  | h s ih =>
    rw [h.kotlinOrder_eq_flatMap, List.pairwise_cons, List.pairwise_flatMap]
    refine ⟨fun q hq hs => ?_, fun c hc => ?_, ?_⟩
    · obtain ⟨c, hc, hq⟩ := List.mem_flatMap.1 hq
      exact not_mem_preorder_of_mem_nodes List.mem_cons_self (mem_nodes_of_walkedNodes hc)
        (preorder_trans (hbelow hc hq) hs)
    · have hc := mem_nodes_of_walkedNodes hc
      exact ih c hc (h.of_mem_nodes hc)
    · refine h.nodup_walkedNodes.pairwise_of_forall_ne fun a ha b hb hne => ?_
      intro p hp q hq hin
      exact hne (eq_of_mem_preorder (mem_nodes_of_walkedNodes ha) (mem_nodes_of_walkedNodes hb)
        (hbelow ha hp) (preorder_trans (hbelow hb hq) hin))

/-- **No node is reached twice.** -/
theorem nodup_kotlinOrder (h : s.Distinct) : s.kotlinOrder.Nodup := by
  refine (pairwise_not_mem_preorder h).imp ?_
  rintro p _ hout rfl
  exact hout List.mem_cons_self

theorem exists_visits_around (h : s.Distinct) (hn : n ∈ s.kotlinOrder) : ∃ before behind,
    s.kotlinOrder = before ++ n :: behind ∧ n ∉ before ∧ n ∉ behind := by
  obtain ⟨before, behind, hlist⟩ := List.append_of_mem hn
  have hnodup := nodup_kotlinOrder h
  rw [hlist, List.nodup_append', List.nodup_cons] at hnodup
  obtain ⟨-, ⟨hbehind, -⟩, hapart⟩ := hnodup
  exact ⟨before, behind, hlist, fun h => hapart h List.mem_cons_self, hbehind⟩

end Site

namespace Context

variable {name text : String} {facts : List NodeFact} {scope : Scope} {file : SourceFile}
  {n : Site} {symbol : Symbol}

/-- A visit to a function or a name with a symbol renames it, but for a name that is not free. -/
theorem visitKotlin_of_symbol (cx : Context) (d : Draft)
    (hkind : n.kind = .funDecl ∨ n.kind = .nameRef)
    (hsymbol : cx.file.symbol? n = some symbol) : cx.visitKotlin d n =
      if n.kind = .funDecl ∨ d.isFree n.span = true then cx.rename n symbol d else d := by
  have hrename : cx.renameSite n d = cx.rename n symbol d := by
    rw [renameSite, hsymbol]
  rcases hkind with hfun | hname
  · rw [if_pos (.inl hfun), visitKotlin, hfun]
    exact hrename
  · have hother : n.kind ≠ .funDecl := by
      rw [hname]
      decide
    rw [visitKotlin, hname, hrename]
    exact if_congr (or_iff_right (hname ▸ hother)).symm rfl rfl

/-- **What a Kotlin walk reaches.**  In a resolved Kotlin file, a function or a name with a symbol
is visited exactly once if each step on the way to it is walked, and not at all otherwise.  Where it
is visited it is renamed by its symbol, but for a name in which something has been replaced already.
-/
theorem renameKotlin_reaches (hfile : SourceFile.resolve name .kotlin text facts scope = .ok file)
    (hn : n ∈ file.sites) (hkind : n.kind = .funDecl ∨ n.kind = .nameRef)
    (hsymbol : file.symbol? n = some symbol) :
    (file.root.WalksTo n → ∃ before behind,
      file.root.kotlinOrder = before ++ n :: behind ∧ n ∉ before ∧ n ∉ behind ∧
      ∀ (cx : Context) (d : Draft), cx.file = file →
        let e := before.foldl cx.visitKotlin d
        cx.renameKotlin d = behind.foldl cx.visitKotlin
          (if n.kind = .funDecl ∨ e.isFree n.span = true then cx.rename n symbol e else e)) ∧
    (¬ file.root.WalksTo n → n ∉ file.root.kotlinOrder) := by
  have hdistinct : file.root.Distinct := nodup_keys_of_resolve hfile
  refine ⟨fun hway => ?_, fun hway hvisited => ?_⟩
  · obtain ⟨before, behind, hlist, hbefore, hbehind⟩ :=
      Site.exists_visits_around hdistinct ((Site.mem_kotlinOrder_iff hdistinct).2 ⟨hn, hway⟩)
    refine ⟨before, behind, hlist, hbefore, hbehind, ?_⟩
    rintro cx d rfl
    rw [renameKotlin, hlist, List.foldl_append, List.foldl_cons,
      cx.visitKotlin_of_symbol _ hkind hsymbol]
  · exact hway ((Site.mem_kotlinOrder_iff hdistinct).1 hvisited).2

/-! ### A receiver that nobody declared -/

def fieldX : Symbol := .field ⟨.ofBinary "A", "x", "[LA;"⟩

def fieldN : Symbol := .field ⟨.ofBinary "A", "n", "LA;"⟩

def indexedFacts : List NodeFact :=
  [⟨.dotQualified, .ofWidth 0 6, none, none⟩, ⟨.nameRef, .ofWidth 0 1, some fieldX, none⟩,
    ⟨.nameRef, .ofWidth 2 1, none, none⟩, ⟨.nameRef, .ofWidth 5 1, some fieldN, none⟩]

/-- The Kotlin file `x[i].n`, of which only the names and the whole are declared. -/
def indexed : SourceFile where
  name := ""
  language := .kotlin
  text := "x[i].n"
  tree := .node .sourceFile [.node .dotQualified [.node .nameRef [.token .ident "x"],
    .token .lBracket "[", .node .nameRef [.token .ident "i"], .token .rBracket "]",
    .token .dot ".", .node .nameRef [.token .ident "n"]]]
  symbols := .ofList [((.nameRef, .ofWidth 0 1), fieldX), ((.nameRef, .ofWidth 5 1), fieldN)]
  types := .empty
  scope := ⟨.empty, .empty⟩

theorem resolve_indexed :
    SourceFile.resolve "" .kotlin "x[i].n" indexedFacts ⟨.empty, .empty⟩ = .ok indexed := by
  rw [SourceFile.resolve, Tree.ofDeclarations, List.mergeSort_of_pairwise (by decide)]
  rfl

def nameAt (offset : Nat) : Site :=
  (indexed.sites.find? (·.key == (.nameRef, .ofWidth offset 1))).getD indexed.root

/-- The field behind the dot is reached. -/
theorem indexed_reaches :
    SourceFile.resolve "" .kotlin "x[i].n" indexedFacts ⟨.empty, .empty⟩ = .ok indexed ∧
    nameAt 5 ∈ indexed.sites ∧ (nameAt 5).kind = .nameRef ∧
    indexed.symbol? (nameAt 5) = some fieldN ∧ indexed.root.WalksTo (nameAt 5) ∧
    ∃ before behind, indexed.root.kotlinOrder = before ++ nameAt 5 :: behind ∧
      nameAt 5 ∉ before ∧ nameAt 5 ∉ behind ∧
      ∀ (cx : Context) (d : Draft), cx.file = indexed →
        let e := before.foldl cx.visitKotlin d
        cx.renameKotlin d = behind.foldl cx.visitKotlin
          (if (nameAt 5).kind = .funDecl ∨ e.isFree (nameAt 5).span = true
            then cx.rename (nameAt 5) fieldN e else e) := by
  have hn : nameAt 5 ∈ indexed.sites :=
    List.mem_of_find?_eq_some (p := (·.key == (.nameRef, .ofWidth 5 1))) rfl
  have hvisited : nameAt 5 ∈ indexed.root.kotlinOrder :=
    List.mem_of_find?_eq_some (p := (·.key == (.nameRef, .ofWidth 5 1))) rfl
  have hdistinct : indexed.root.Distinct := nodup_keys_of_resolve resolve_indexed
  have hway := ((Site.mem_kotlinOrder_iff hdistinct).1 hvisited).2
  have hsymbol : indexed.symbol? (nameAt 5) = some fieldN := by decide +kernel
  exact ⟨resolve_indexed, hn, rfl, hsymbol, hway,
    (renameKotlin_reaches resolve_indexed hn (.inr rfl) hsymbol).1 hway⟩

def fieldRun : Run where
  renames := Renames.empty.declare "A" "A" fun c => c.addField "x" "y"
  templates := []
  settings := {}

/-- **A name in front of an index** is not reached.  By itself it would be renamed; the file stays
as it is. -/
theorem indexed_passed_over :
    SourceFile.resolve "" .kotlin "x[i].n" indexedFacts ⟨.empty, .empty⟩ = .ok indexed ∧
    nameAt 0 ∈ indexed.sites ∧ (nameAt 0).kind = .nameRef ∧
    indexed.symbol? (nameAt 0) = some fieldX ∧
    ((Context.ofFile indexed fieldRun.renames false).rename (nameAt 0) fieldX
      (.ofText indexed.text)).edits.toList = [⟨.ofWidth 0 1, "y"⟩] ∧
    nameAt 0 ∉ indexed.root.kotlinOrder ∧
    fieldRun.report indexed = .ok ⟨"x[i].n", [], []⟩ := by
  have hn : nameAt 0 ∈ indexed.sites :=
    List.mem_of_find?_eq_some (p := (·.key == (.nameRef, .ofWidth 0 1))) rfl
  have hkeys : (nameAt 0).key ∉ indexed.root.kotlinOrder.map Site.key := by decide +kernel
  exact ⟨resolve_indexed, hn, rfl, by decide +kernel, by decide +kernel,
    fun h => hkeys (List.mem_map_of_mem h), by decide +kernel⟩

end Context

end SourceRename
