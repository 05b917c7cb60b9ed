import SourceRename.Proofs.Rename.KotlinOrder
import SourceRename.Proofs.Rename.Walk
import SourceRename.Proofs.Symbol.Ancestry

/-!
# Files that use no renamed names

A symbol is unmapped if the renames have no entry where its new name would come from: for a class or
package its own name, for a field its owner, for a method its owner and all supertypes of the owner.
Renaming a node with an unmapped symbol does nothing, so a run leaves a file in which all symbols
are unmapped just as it is (`Run.report_unmapped`), whatever else the renames hold. -/

namespace SourceRename

namespace Symbol

mutual

/-- The renames have no entry where the new name of the symbol would come from. -/
def Unmapped (r : Renames) (scope : Scope) : Symbol → Prop
  | .field f => r.find? f.owner.binary = none
  | .method m | .function m | .property m =>
    ∀ c, scope.Reaches m.owner.binary c → r.find? c = none
  | .classType name => r.find? name.binary = none
  | .package name => r.find? name = none
  | .compiled overridden => AllUnmapped r scope overridden

def AllUnmapped (r : Renames) (scope : Scope) : List Symbol → Prop
  | [] => True
  | symbol :: symbols => symbol.Unmapped r scope ∧ AllUnmapped r scope symbols

end

end Symbol

namespace Context

variable {cx : Context} {site : Site}

theorem methodName?_eq_none {m : Method} (hmixins : cx.mixins = .empty)
    (h : ∀ c, cx.file.scope.Reaches m.owner.binary c → cx.renames.find? c = none) :
    cx.methodName? m = none := by
  have hinherited : cx.inheritedName? m = none := by
    rw [inheritedName?, List.findSome?_eq_none_iff]
    intro c hc
    rw [h c (Scope.reaches_of_mem_ancestry hc)]
    rfl
  rw [methodName?, hmixins]
  exact hinherited

theorem renameField_eq_self {field : Field} (hmixins : cx.mixins = .empty)
    (h : cx.renames.find? field.owner.binary = none) (d : Draft) :
    cx.renameField site field d = d := by
  have hname : cx.fieldName? field = none := by
    rw [fieldName?, hmixins, Table.get?_empty]
    simp only [h, Option.bind_none]
  rw [renameField, hname]

theorem renameQualified_eq_self {qualified lookup : String} (h : cx.renames.find? lookup = none)
    (d : Draft) : cx.renameQualified site qualified lookup d = d := by
  rw [renameQualified, h]

theorem renameMethod_eq_self {m : Method} (hmixins : cx.mixins = .empty)
    (h : ∀ c, cx.file.scope.Reaches m.owner.binary c → cx.renames.find? c = none) (d : Draft) :
    cx.renameMethod site m d = d := by
  rw [renameMethod]
  split
  · split
    · exact renameQualified_eq_self (h _ .refl) d
    · rfl
  · rw [methodName?_eq_none hmixins h]

theorem renameProperty_eq_self {getter : Method} (hmixins : cx.mixins = .empty)
    (h : ∀ c, cx.file.scope.Reaches getter.owner.binary c → cx.renames.find? c = none)
    (d : Draft) : cx.renameProperty site getter d = d := by
  rw [renameProperty, methodName?_eq_none hmixins h]

mutual

/-- **Renaming a node does nothing if its symbol is unmapped.** -/
theorem rename_eq_self (hmixins : cx.mixins = .empty) (d : Draft) : (symbol : Symbol) →
    symbol.Unmapped cx.renames cx.file.scope → cx.rename site symbol d = d
  | .field f, h => by
    rw [Symbol.Unmapped] at h
    rw [rename, renameField_eq_self hmixins h]
  | .method m, h => by
    rw [Symbol.Unmapped] at h
    rw [rename, renameMethod_eq_self hmixins h]
  | .function m, h => by
    rw [Symbol.Unmapped] at h
    rw [rename, renameMethod_eq_self hmixins h]
  | .classType name, h => by
    rw [Symbol.Unmapped] at h
    rw [rename, renameClass, renameQualified_eq_self h]
  | .package name, h => by
    rw [Symbol.Unmapped] at h
    rw [rename, renameQualified_eq_self h]
  | .property getter, h => by
    rw [Symbol.Unmapped] at h
    rw [rename, renameProperty_eq_self hmixins h]
  | .compiled overridden, h => by
    rw [Symbol.Unmapped] at h
    rw [rename, renameFirst_eq_self hmixins d overridden h]

theorem renameFirst_eq_self (hmixins : cx.mixins = .empty) (d : Draft) :
    (symbols : List Symbol) → Symbol.AllUnmapped cx.renames cx.file.scope symbols →
      cx.renameFirst site symbols d = d
  | [], _ => by rw [renameFirst]
  | symbol :: symbols, h => by
    rw [Symbol.AllUnmapped] at h
    rw [renameFirst, rename_eq_self hmixins d symbol h.1, if_pos rfl,
      renameFirst_eq_self hmixins d symbols h.2]

end

section

variable (hmixins : cx.mixins = .empty) (hsymbols : ∀ s ∈ cx.file.sites, ∀ symbol,
  cx.file.symbol? s = some symbol → symbol.Unmapped cx.renames cx.file.scope)
include hmixins hsymbols

theorem renameSite_eq_self (hsite : site ∈ cx.file.sites) (d : Draft) :
    cx.renameSite site d = d := by
  rw [renameSite]
  split
  · next symbol hsymbol => exact rename_eq_self hmixins d symbol (hsymbols site hsite symbol hsymbol)
  · rfl

theorem foldl_eq_self {visit : Draft → Site → Draft} {sites : List Site}
    (hsites : ∀ s ∈ sites, s ∈ cx.file.sites)
    (hvisit : ∀ d s, visit d s = cx.renameSite s d ∨ visit d s = d) (d : Draft) :
    sites.foldl visit d = d := by
  induction sites with
  | nil => rfl
  | cons s sites ih =>
    obtain ⟨hs, hsites⟩ := List.forall_mem_cons.1 hsites
    have hone : visit d s = d := by
      rcases hvisit d s with h | h
      · rw [h, renameSite_eq_self hmixins hsymbols hs]
      · exact h
    rw [List.foldl_cons, hone, ih hsites]

theorem renameJava_eq_self (d : Draft) : cx.renameJava d = d := by
  refine foldl_eq_self hmixins hsymbols (fun _ hs => hs) (fun d s => ?_) d
  rw [visitJava]
  split
  · exact .inl rfl
  · exact .inr rfl

theorem renameKotlin_eq_self (d : Draft) : cx.renameKotlin d = d := by
  refine foldl_eq_self hmixins hsymbols (fun _ hs => Site.mem_preorder_of_mem_kotlinOrder hs)
    (fun d s => ?_) d
  rw [visitKotlin]
  split
  · exact .inl rfl
  · split
    · exact .inl rfl
    · exact .inr rfl
  · exact .inr rfl

end

end Context

/-- **A file that uses no renamed names is left as it is**: a Kotlin file, or a Java file without
mixin classes, in which looking for a match comes to its end without one and every symbol that a
node has is unmapped.  Its report is its text, with neither problems nor conflicts. -/
theorem Run.report_unmapped {run : Run} {file : SourceFile}
    (hmixins : file.language = .java → ∀ s ∈ file.sites, s.kind = .classDecl →
      ∀ use ∈ s.annotations, file.denotes use Mixin.mixin = false)
    (htemplates : ∀ t ∈ run.templates, ∀ s ∈ file.sites, t.find file s = .ok none)
    (hsymbols : ∀ s ∈ file.sites, ∀ symbol, file.symbol? s = some symbol →
      symbol.Unmapped run.renames file.scope) :
    run.report file = .ok ⟨file.text, [], []⟩ := by
  have hnothing : ∀ d, (Context.ofFile file run.renames
      run.settings.forbidImplicit).renameAll d = d := by
    intro d
    cases hlanguage : file.language with
    | java =>
      rw [Context.renameAll_eq_renameJava hlanguage (hmixins hlanguage)]
      exact Context.renameJava_eq_self rfl hsymbols d
    | kotlin =>
      have hkotlin : (Context.ofFile file run.renames
          run.settings.forbidImplicit).file.language = .kotlin := hlanguage
      rw [Context.renameAll, hkotlin]
      exact Context.renameKotlin_eq_self rfl hsymbols d
  have hnone : ∀ t ∈ run.templates, ∀ s ∈ file.sites, t.find? file s = none :=
    fun t ht s hs => Template.find_eq_ok_none (htemplates t ht s hs)
  have hintact : Template.intact run.templates file = true :=
    Template.intact_of_forall fun t ht s hs => ⟨none, htemplates t ht s hs⟩
  rw [Run.report_of_intact hintact, Run.draft, Template.offerAll_eq_self hnone, hnothing,
    Draft.result_ofText]

namespace Run

/-! ### A name whose owner has supertypes -/

open Template (differenceTemplate)

def unrelated : Method := ⟨.ofBinary "X", "f", "()V", false, false, []⟩

/-- A Kotlin file that says `f`, which overrides the method of `X` and something of a package.  The
supertype of `X` is `Y`, and that of `Y` is `X`. -/
def calling : SourceFile where
  name := ""
  language := .kotlin
  text := "f"
  tree := .node .sourceFile [.node .nameRef [.token .ident "f"]]
  symbols := .ofList [((.nameRef, .ofWidth 0 1),
    .compiled [.package "p", .compiled [], .method unrelated])]
  types := .empty
  scope := ⟨.ofList [⟨.ofBinary "X", some "Y", [], [unrelated], []⟩,
    ⟨.ofBinary "Y", none, ["X"], [], []⟩], .empty⟩

def unrelatedRun : Run where
  renames := Renames.empty.declare "Z" "W" fun c => c.addMethod ⟨"f", none⟩ "g"
  templates := [differenceTemplate ["", "+", ""]]
  settings := {}

theorem reaches_calling {c : String} (h : calling.scope.Reaches "X" c) : c = "X" ∨ c = "Y" := by
  refine h.closed (P := fun c => c = "X" ∨ c = "Y") (fun b hb c hc => ?_) (.inl rfl)
  have hX : calling.scope.supertypes "X" = ["Y"] := by decide
  have hY : calling.scope.supertypes "Y" = ["X"] := by decide
  rcases hb with rfl | rfl
  · rw [hX] at hc
    exact .inr (List.mem_singleton.1 hc)
  · rw [hY] at hc
    exact .inl (List.mem_singleton.1 hc)

theorem calling_unmapped :
    (∀ t ∈ unrelatedRun.templates, ∀ s ∈ calling.sites, t.find calling s = .ok none) ∧
    (∀ s ∈ calling.sites, ∀ symbol, calling.symbol? s = some symbol →
      symbol.Unmapped unrelatedRun.renames calling.scope) ∧
    unrelatedRun.report calling = .ok ⟨"f", [], []⟩ := by
  have htemplates : ∀ t ∈ unrelatedRun.templates, ∀ s ∈ calling.sites,
      t.find calling s = .ok none := by
    intro t ht s hs
    obtain rfl := List.mem_singleton.1 ht
    have hkind : Kind.binaryExpr ≠ s.kind := by
      revert s
      decide
    exact Template.find_of_kind rfl hkind
  have hsymbols : ∀ s ∈ calling.sites, ∀ symbol, calling.symbol? s = some symbol →
      symbol.Unmapped unrelatedRun.renames calling.scope := by
    intro s hs symbol hsymbol
    have hone : ∀ s ∈ calling.sites, calling.symbol? s = none ∨
        calling.symbol? s = some (.compiled [.package "p", .compiled [], .method unrelated]) := by
      decide
    rcases hone s hs with hnone | hsome
    · rw [hnone] at hsymbol
      exact absurd hsymbol (by simp)
    · obtain rfl := Option.some.inj (hsome.symm.trans hsymbol)
      simp only [Symbol.Unmapped, Symbol.AllUnmapped]
      refine ⟨by decide, trivial, fun c hc => ?_, trivial⟩
      rcases reaches_calling hc with rfl | rfl
      · decide
      · decide
  exact ⟨htemplates, hsymbols, report_unmapped nofun htemplates hsymbols⟩

end Run

end SourceRename
