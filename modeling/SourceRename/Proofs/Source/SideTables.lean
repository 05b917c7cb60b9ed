import SourceRename.Proofs.Syntax.Distinct
import SourceRename.Proofs.Table

/-!
# Symbols and types follow the nodes

A file is resolved from a row of facts, each about the node of a kind and a span.  The facts are
kept apart from the tree, under kind and span, while the tree is made by sorting the declared nodes.
Still every node has what was said of it (`side_tables_follow_nodes`).  Below the root there is one
node for each kind and span of the facts, however often they are repeated, since facts about the
same node are one declaration and the tree has just the declared nodes below its root.  And the last
symbol and the last type that were given for its kind and span are those of the node
(`symbol?_of_resolve`, `type?_of_resolve`).

So a symbol has a declaration in the file if a fact about a node of the right kind gives it and no
later one replaces it; the first such node of the preorder is found (`declarationOf?_eq_some_iff`,
`isSome_declarationOf?_iff`). -/

namespace SourceRename

namespace NodeFact

variable {α : Type}

/-- What the facts say last of a node, in one respect. -/
def last? (part : NodeFact → Option α) (facts : List NodeFact) (key : Kind × Span) : Option α :=
  ((facts.filter (·.key = key)).filterMap part).getLast?

theorem get?_ofList (part : NodeFact → Option α) (facts : List NodeFact) (key : Kind × Span) :
    (Table.ofList (facts.filterMap fun f => (part f).map (f.key, ·))).get? key =
      last? part facts key := by
  rw [Table.get?_ofList, List.filter_filterMap, List.map_filterMap, last?, List.filterMap_filter]
  refine congrArg List.getLast? (List.filterMap_congr fun f _ => ?_)
  by_cases hkey : f.key = key <;> cases part f <;> simp [hkey, Option.filter]

end NodeFact

namespace SourceFile

/-- The node declares the symbol: it stands for it and is of a kind that declares such a symbol. -/
def Declares (f : SourceFile) (s : Site) (symbol : Symbol) : Prop :=
  s.kind ∈ declaringKinds symbol ∧ f.symbol? s = some symbol

variable {f : SourceFile} {symbol : Symbol} {s : Site}

instance : Decidable (f.Declares s symbol) := inferInstanceAs (Decidable (_ ∧ _))

theorem declarationOf?_eq_find? : f.declarationOf? symbol = f.sites.find? (f.Declares · symbol) := by
  rw [declarationOf?, List.find?_filter]
  refine congrArg (List.find? · f.sites) (funext fun s => Bool.eq_iff_iff.2 ?_)
  simp only [decide_eq_true_iff]
  simp [Declares]

/-- The first node of the preorder that declares a symbol is found. -/
theorem declarationOf?_eq_some_iff : f.declarationOf? symbol = some s ↔
    ∃ before behind, f.sites = before ++ s :: behind ∧ f.Declares s symbol ∧
      ∀ q ∈ before, ¬ f.Declares q symbol := by
  rw [declarationOf?_eq_find?, List.find?_eq_some_iff_append]
  simp only [decide_eq_true_eq, Bool.not_eq_true', decide_eq_false_iff_not]
  constructor
  · rintro ⟨hs, before, behind, hsites, hbefore⟩
    exact ⟨before, behind, hsites, hs, hbefore⟩
  · rintro ⟨before, behind, hsites, hs, hbefore⟩
    exact ⟨hs, before, behind, hsites, hbefore⟩

theorem isSome_declarationOf?_iff :
    (f.declarationOf? symbol).isSome ↔ ∃ s ∈ f.sites, f.Declares s symbol := by
  rw [declarationOf?_eq_find?, List.find?_isSome]
  simp only [decide_eq_true_eq]

end SourceFile

section

variable {name text : String} {language : Language} {facts : List NodeFact} {scope : Scope}
  {file : SourceFile} (h : SourceFile.resolve name language text facts scope = .ok file)
include h

theorem symbol?_of_resolve (s : Site) :
    file.symbol? s = NodeFact.last? NodeFact.symbol? facts s.key := by
  obtain ⟨tree, -, rfl⟩ := SourceFile.resolve_eq_ok_iff.1 h
  exact NodeFact.get?_ofList NodeFact.symbol? facts s.key

theorem type?_of_resolve (s : Site) : file.type? s = NodeFact.last? NodeFact.type? facts s.key := by
  obtain ⟨tree, -, rfl⟩ := SourceFile.resolve_eq_ok_iff.1 h
  exact NodeFact.get?_ofList NodeFact.type? facts s.key

theorem mem_keys_below_iff (key : Kind × Span) :
    key ∈ file.root.below.map Site.key ↔ key ∈ facts.map NodeFact.key := by
  obtain ⟨tree, htree, rfl⟩ := SourceFile.resolve_eq_ok_iff.1 h
  have hbelow : (Site.root tree).below.map Site.declaration = _ := map_below_of_ofDeclarations htree
  have hfacts : facts.map NodeFact.key = (facts.map NodeFact.declaration).map Declaration.key := by
    rw [List.map_map]
    rfl
  rw [SourceFile.root, Site.map_key, hbelow, hfacts, List.mem_map, List.mem_map]
  simp only [List.mem_mergeSort, SourceFile.declarations, List.mem_eraseDups]

/-- The nodes of a file are the root and, each once, those of the facts. -/
theorem keys_perm_of_resolve : (file.sites.map Site.key).Perm
    (file.root.key :: (facts.map NodeFact.key).eraseDups) := by
  have hnodup := nodup_keys_of_resolve h
  rw [show file.sites = file.root :: file.root.below from rfl, List.map_cons] at hnodup ⊢
  refine .cons _ ((List.perm_ext_iff_of_nodup (List.nodup_cons.1 hnodup).2
    (nodup_eraseDups _)).2 fun key => ?_)
  rw [List.mem_eraseDups, mem_keys_below_iff h]

/-- A symbol has a declaration in the file if it is the last one that was given for a node of the
right kind. -/
theorem exists_declares_iff (symbol : Symbol) : (∃ s ∈ file.sites, file.Declares s symbol) ↔
    ∃ f ∈ facts, f.kind ∈ SourceFile.declaringKinds symbol ∧
      NodeFact.last? NodeFact.symbol? facts f.key = some symbol := by
  constructor
  · rintro ⟨s, -, hkind, hsymbol⟩
    rw [symbol?_of_resolve h] at hsymbol
    obtain ⟨f, hf, -⟩ := List.mem_filterMap.1 (List.mem_of_getLast? hsymbol)
    obtain ⟨hf, hkey⟩ := List.mem_filter.1 hf
    have hkey : f.key = s.key := of_decide_eq_true hkey
    have hsame : f.kind = s.kind := congrArg Prod.fst hkey
    exact ⟨f, hf, hsame ▸ hkind, hkey ▸ hsymbol⟩
  · rintro ⟨f, hf, hkind, hsymbol⟩
    obtain ⟨s, hs, hkey⟩ :=
      List.mem_map.1 ((mem_keys_below_iff h f.key).2 (List.mem_map_of_mem hf))
    have hsame : s.kind = f.kind := congrArg Prod.fst hkey
    refine ⟨s, List.mem_cons_of_mem _ hs, hsame ▸ hkind, ?_⟩
    rw [symbol?_of_resolve h, hkey, hsymbol]

/-- **Symbols and types follow the nodes.**  A file that was resolved from facts has, besides the
root, one node for each kind and span that the facts are about.  What it says of a node is what the
facts say last of its kind and span.  And a symbol has a declaration in the file, the first one in
preorder of the nodes of a matching kind that stand for it, whenever there is such a node; that is
if for such a kind the facts give this symbol last. -/
theorem side_tables_follow_nodes :
    ((file.sites.map Site.key).Perm (file.root.key :: (facts.map NodeFact.key).eraseDups) ∧
      (file.sites.map Site.key).Nodup) ∧
    (∀ s ∈ file.sites, file.symbol? s = NodeFact.last? NodeFact.symbol? facts s.key ∧
      file.type? s = NodeFact.last? NodeFact.type? facts s.key) ∧
    ∀ symbol,
      (∀ s, file.declarationOf? symbol = some s ↔
        ∃ before behind, file.sites = before ++ s :: behind ∧ file.Declares s symbol ∧
          ∀ q ∈ before, ¬ file.Declares q symbol) ∧
      ((file.declarationOf? symbol).isSome ↔ ∃ s ∈ file.sites, file.Declares s symbol) ∧
      ((∃ s ∈ file.sites, file.Declares s symbol) ↔
        ∃ f ∈ facts, f.kind ∈ SourceFile.declaringKinds symbol ∧
          NodeFact.last? NodeFact.symbol? facts f.key = some symbol) :=
  ⟨⟨keys_perm_of_resolve h, nodup_keys_of_resolve h⟩,
    fun s _ => ⟨symbol?_of_resolve h s, type?_of_resolve h s⟩,
    fun symbol => ⟨fun _ => SourceFile.declarationOf?_eq_some_iff,
      SourceFile.isSome_declarationOf?_iff, exists_declares_iff h symbol⟩⟩

end

/-! ### A field that is declared twice -/

def intField (name : String) : Symbol := .field ⟨.ofBinary "A", name, "I"⟩

/-- A field whose symbol is given twice, around a value whose type is given twice, and a property
that covers the same bytes. -/
def repeatedFacts : List NodeFact := [
  ⟨.fieldDecl, .ofWidth 0 4, some (intField "g"), none⟩,
  ⟨.propertyDecl, .ofWidth 0 4, some (intField "f"), none⟩,
  ⟨.literal, .ofWidth 2 1, none, some (.primitive .int)⟩, ⟨.fieldDecl, .ofWidth 0 4, none, none⟩,
  ⟨.fieldDecl, .ofWidth 0 4, some (intField "f"), none⟩,
  ⟨.literal, .ofWidth 2 1, none, some (.primitive .long)⟩]

def repeatedFile : SourceFile where
  name := ""
  language := .java
  text := "f=1;"
  tree := .node .sourceFile [.node .fieldDecl [.node .propertyDecl [.token .ident "f",
    .token .eq "=", .node .literal [.token .integer "1"], .token .semicolon ";"]]]
  symbols := .ofList [((.fieldDecl, .ofWidth 0 4), intField "g"),
    ((.propertyDecl, .ofWidth 0 4), intField "f"), ((.fieldDecl, .ofWidth 0 4), intField "f")]
  types := .ofList [((.literal, .ofWidth 2 1), .primitive .int),
    ((.literal, .ofWidth 2 1), .primitive .long)]
  scope := ⟨.empty, .empty⟩

/-- The field comes first in preorder, and what was said last of it counts. -/
theorem repeated_follow_nodes :
    SourceFile.resolve "" .java "f=1;" repeatedFacts ⟨.empty, .empty⟩ = .ok repeatedFile ∧
    (repeatedFile.sites.map Site.key).Nodup ∧
    (repeatedFile.declarationOf? (intField "f")).map Site.key =
      some (.fieldDecl, .ofWidth 0 4) ∧
    repeatedFile.declarationOf? (intField "g") = none := by
  have hfile : SourceFile.resolve "" .java "f=1;" repeatedFacts ⟨.empty, .empty⟩ =
      .ok repeatedFile := by
    rw [SourceFile.resolve, Tree.ofDeclarations, List.mergeSort_of_pairwise (by decide)]
    rfl
  obtain ⟨⟨-, hnodup⟩, -, hdeclarations⟩ := side_tables_follow_nodes hfile
  obtain ⟨-, hfound, hfacts⟩ := hdeclarations (intField "g")
  refine ⟨hfile, hnodup, by decide, ?_⟩
  rw [← Option.not_isSome_iff_eq_none, hfound, hfacts]
  decide

end SourceRename
