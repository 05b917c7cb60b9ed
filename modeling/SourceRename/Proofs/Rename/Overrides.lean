import SourceRename.Proofs.Rename.Writes
import SourceRename.Rename.Kotlin

/-!
# A function of several overridden ones is renamed once

A compiled function stands for the symbols it overrides, and some of these may be compiled functions
again.  They are tried one after the other until the list of replacements has one more entry, so a
symbol sees what those before it have left in the draft.  For a node that is free and not empty
this is the same as to try each symbol in the draft as it was at first: what is added is what the
first symbol that adds anything by itself would add, in the order of the tree of overridden symbols
(`Context.visit_overridden`):

    added = (Symbol.compiled overridden).overrides.findSome? (cx.adds? site d)

Two facts carry this.  A symbol that adds nothing leaves the replacements as they were, and renaming
reads nothing else of a draft but its text (`Context.alike_rename`).  And what a symbol adds is a
new entry (`Draft.Adds.cases`), so it is never appended to the name that another one has queued.
-/

namespace SourceRename

/-! ### The tree of overridden symbols -/

namespace Symbol

mutual

/-- The symbols below a compiled function, each before those below it, from left to right. -/
def overrides : Symbol → List Symbol
  | .compiled overridden => overridesAll overridden
  | _ => []

def overridesAll : List Symbol → List Symbol
  | [] => []
  | symbol :: symbols => symbol :: (symbol.overrides ++ overridesAll symbols)

end

def isCompiled : Symbol → Bool
  | .compiled _ => true
  | _ => false

section

variable {α : Type} {f : Symbol → Option α} {p : Symbol → Bool}

mutual

theorem findSome?_overrides (hf : ∀ symbols, f (.compiled symbols) = symbols.findSome? f)
    (hp : ∀ symbol, symbol.isCompiled = false → p symbol = true) :
    (symbol : Symbol) → (symbol.overrides.filter p).findSome? f =
      if symbol.isCompiled then f symbol else none
  | .compiled overridden => by
    rw [overrides, findSome?_overridesAll hf hp overridden, ← hf]
    rfl
  | .field _ | .method _ | .function _ | .classType _ | .package _ | .property _ => rfl

/-- **A search through a tree of symbols finds what it finds in the row at its top**, if it goes
into compiled functions; it does not matter whether these are themselves asked. -/
theorem findSome?_overridesAll (hf : ∀ symbols, f (.compiled symbols) = symbols.findSome? f)
    (hp : ∀ symbol, symbol.isCompiled = false → p symbol = true) :
    (symbols : List Symbol) → ((overridesAll symbols).filter p).findSome? f = symbols.findSome? f
  | [] => rfl
  | symbol :: symbols => by
    have hbelow := findSome?_overrides hf hp symbol
    have hrest := findSome?_overridesAll hf hp symbols
    rw [overridesAll, List.filter_cons, List.filter_append, List.findSome?_cons]
    split
    · rw [List.findSome?_cons, List.findSome?_append, hbelow, hrest]
      cases hone : f symbol with
      | some found => rfl
      | none =>
        rw [ite_self]
        rfl
    · next hskip =>
      -- only a compiled function is passed over, and what it gives is found below it
      have hcompiled : symbol.isCompiled = true := by
        by_contra hplain
        exact hskip (hp symbol (Bool.not_eq_true _ ▸ hplain))
      rw [List.findSome?_append, hbelow, if_pos hcompiled, hrest]
      cases f symbol with
      | some found => rfl
      | none => rfl

end

end

end Symbol

/-! ### What a step adds to a draft -/

namespace Draft

variable {d d' : Draft} {e : Edit} {P : Edit → Prop}

/-- The two drafts have the same text and list the same replacements. -/
structure Alike (d d' : Draft) : Prop where
  text : d'.text = d.text
  edits : d'.edits = d.edits

theorem Alike.isFree (h : d.Alike d') (span : Span) : d'.isFree span = d.isFree span := by
  rw [Draft.isFree, h.edits, Draft.isFree]

theorem Alike.replace (h : d.Alike d') (span : Span) (text : String) :
    (d.replace span text).Alike (d'.replace span text) := by
  rw [Draft.replace, Draft.replace, h.text]
  split
  · exact h
  · exact ⟨h.text, congrArg (·.queue span text) h.edits⟩

/-- The first replacement that is listed in the second draft and not in the first one. -/
def added? (d d' : Draft) : Option Edit := d'.edits.toList.find? (· ∉ d.edits.toList)

theorem added?_of_edits_eq (h : d'.edits = d.edits) : d.added? d' = none := by
  rw [added?, h, List.find?_eq_none]
  simp

theorem added?_of_queue (h : d'.edits = d.edits.queue e.span e.text)
    (hnew : d.edits.hasSpan e.span = false) : d.added? d' = some e := by
  have hperm : d'.edits.toList.Perm (e :: d.edits.toList) := h ▸ Edits.perm_queue hnew
  have hout : e ∉ d.edits.toList := by
    intro he
    rw [Edits.hasSpan_iff.2 ⟨e, he, rfl⟩] at hnew
    exact Bool.noConfusion hnew
  obtain ⟨f, hf⟩ : ∃ f, d.added? d' = some f := by
    refine Option.isSome_iff_exists.1 (List.find?_isSome.2 ⟨e, ?_, ?_⟩)
    · exact hperm.mem_iff.2 List.mem_cons_self
    · simpa using hout
  have hmem := hperm.mem_iff.1 (List.mem_of_find?_eq_some hf)
  have hfresh : f ∉ d.edits.toList := by simpa using List.find?_some hf
  rw [hf, (List.mem_cons.1 hmem).resolve_right hfresh]

theorem Adds.cases (h : d.Adds P d') (hwide : ∀ e, P e → e.span.start < e.span.stop) :
    (d'.edits = d.edits ∧ d.added? d' = none) ∨
      ∃ e, d.edits.hasSpan e.span = false ∧ d'.edits = d.edits.queue e.span e.text ∧
        d.added? d' = some e := by
  rcases h with hsame | ⟨e, he, hfree, hedits⟩
  · exact .inl ⟨hsame, added?_of_edits_eq hsame⟩
  · have hnew := Edits.hasSpan_eq_false hfree (hwide e he)
    exact .inr ⟨e, hnew, hedits, added?_of_queue hedits hnew⟩

end Draft

namespace Context

variable {cx : Context} {n site : Site} {d d' : Draft} {overridden : List Symbol}

/-! ### What renaming reads of a draft -/

theorem alike_replaceName (h : d.Alike d') (old new : String) :
    (replaceName site old new d).Alike (replaceName site old new d') := by
  rw [replaceName, replaceName]
  split
  · exact h.replace _ new
  · exact h

theorem alike_renameField (h : d.Alike d') (field : Field) :
    (cx.renameField site field d).Alike (cx.renameField site field d') := by
  rw [renameField, renameField]
  split
  · exact h
  · split
    · exact h
    · next new _ _ =>
      have hname : (replaceName site field.name new d).Alike (replaceName site field.name new d') :=
        alike_replaceName h field.name new
      split
      · exact ⟨hname.text, hname.edits⟩
      · exact hname

theorem alike_renameQualified (h : d.Alike d') (qualified lookup : String) :
    (cx.renameQualified site qualified lookup d).Alike
      (cx.renameQualified site qualified lookup d') := by
  rw [renameQualified, renameQualified]
  split
  · exact h
  · dsimp only
    split
    · exact h.replace _ _
    · split
      · rw [h.isFree]
        split
        · exact h.replace _ _
        · exact h
      · exact alike_replaceName h _ _

theorem getterCall?_of_alike (h : d.Alike d') (m : Method) (new : String) :
    cx.getterCall? site m new d' = cx.getterCall? site m new d := by
  simp only [getterCall?, propertyCall?, h.isFree]

theorem alike_renameMethod (h : d.Alike d') (m : Method) :
    (cx.renameMethod site m d).Alike (cx.renameMethod site m d') := by
  rw [renameMethod, renameMethod]
  split
  · split
    · exact alike_renameQualified h _ _
    · exact h
  · split
    · exact h
    · split
      · exact h
      · split
        · exact alike_replaceName h _ _
        · rw [getterCall?_of_alike h]
          split
          · exact h.replace _ _
          · exact alike_replaceName h _ _

theorem alike_renameProperty (h : d.Alike d') (getter : Method) :
    (cx.renameProperty site getter d).Alike (cx.renameProperty site getter d') := by
  rw [renameProperty, renameProperty]
  split
  · exact h
  · split
    · exact h
    · split
      · exact h
      · exact h.replace _ _

mutual

/-- **Renaming a node reads the text and the replacements of a draft**, and nothing else. -/
theorem alike_rename : (symbol : Symbol) → ∀ {d d' : Draft}, d.Alike d' →
    (cx.rename site symbol d).Alike (cx.rename site symbol d')
  | .field f, _, _, h => by simpa only [rename] using alike_renameField h f
  | .method m, _, _, h => by simpa only [rename] using alike_renameMethod h m
  | .function m, _, _, h => by simpa only [rename] using alike_renameMethod h m
  | .classType name, _, _, h => by
    simpa only [rename, renameClass] using alike_renameQualified h _ _
  | .package name, _, _, h => by simpa only [rename] using alike_renameQualified h _ _
  | .property getter, _, _, h => by simpa only [rename] using alike_renameProperty h getter
  | .compiled overridden, _, _, h => by simpa only [rename] using alike_renameFirst overridden h

theorem alike_renameFirst : (symbols : List Symbol) → ∀ {d d' : Draft}, d.Alike d' →
    (cx.renameFirst site symbols d).Alike (cx.renameFirst site symbols d')
  | [], _, _, h => by
    rw [renameFirst, renameFirst]
    exact h
  | symbol :: symbols, _, _, h => by
    have hone := alike_rename symbol h
    rw [renameFirst, renameFirst, hone.edits, h.edits]
    split
    · exact alike_renameFirst symbols hone
    · exact hone

end

/-! ### The first symbol that adds anything -/

def adds? (cx : Context) (site : Site) (d : Draft) (symbol : Symbol) : Option Edit :=
  d.added? (cx.rename site symbol d)

section

variable (hwide : ∀ s, site.Nearby s → s.start < s.stop)
include hwide

/-- Renaming a free node leaves the replacements as they are, or adds a new one. -/
theorem rename_cases (hfree : d.isFree site.span = true) (symbol : Symbol) :
    ((cx.rename site symbol d).edits = d.edits ∧ cx.adds? site d symbol = none) ∨
      ∃ e, d.edits.hasSpan e.span = false ∧
        (cx.rename site symbol d).edits = d.edits.queue e.span e.text ∧
        cx.adds? site d symbol = some e :=
  (adds_rename hwide symbol d hfree).cases fun _ he => hwide _ he.nearby

/-- **A row of symbols adds what the first of them adds that adds anything.** -/
theorem added?_renameFirst (hfree : d.isFree site.span = true) (symbols : List Symbol) :
    d.added? (cx.renameFirst site symbols d) = symbols.findSome? (cx.adds? site d) := by
  induction symbols with
  | nil =>
    rw [renameFirst]
    exact Draft.added?_of_edits_eq rfl
  | cons symbol symbols ih =>
    rw [renameFirst, List.findSome?_cons]
    rcases rename_cases hwide hfree symbol with ⟨hsame, hnone⟩ | ⟨e, hnew, hedits, hsome⟩
    · -- the others go on with a draft that is alike
      have halike : d.Alike (cx.rename site symbol d) :=
        ⟨(cx.extends_rename site symbol d).text, hsame⟩
      rw [if_pos (congrArg Edits.size hsame), hnone, ← ih, Draft.added?, Draft.added?,
        (alike_renameFirst symbols halike).edits]
    · have hsize : (cx.rename site symbol d).edits.size ≠ d.edits.size := by
        rw [hedits, Edits.size_queue_of_not_hasSpan hnew]
        omega
      rw [if_neg hsize, hsome]
      exact hsome

theorem adds?_compiled (hfree : d.isFree site.span = true) (symbols : List Symbol) :
    cx.adds? site d (.compiled symbols) = symbols.findSome? (cx.adds? site d) := by
  rw [adds?, rename, added?_renameFirst hwide hfree]

end

/-- **A function of several overridden ones is renamed once.**  Where a walk comes to a node that is
free and not empty and stands for a compiled function, what is listed stays listed and at most one
entry is added, for a span that is not listed.  It is what the first symbol that adds anything by
itself adds, in the order of the tree of overridden symbols; and so it is if only those are asked
that are no compiled functions. -/
theorem visit_overridden (hfile : cx.file.Lossless) (hn : n ∈ cx.file.sites)
    (hwide : n.span.start < n.span.stop) (hfree : d.isFree n.span = true)
    (hsymbol : cx.file.symbol? n = some (.compiled overridden)) :
    let tree := (Symbol.compiled overridden).overrides
    let added := tree.findSome? (cx.adds? n d)
    let renamed := cx.rename n (.compiled overridden) d
    (isJavaName n.kind = true → cx.visitJava d n = renamed) ∧
      (n.kind = .nameRef → cx.visitKotlin d n = renamed) ∧
      renamed.edits.toList.Perm (added.toList ++ d.edits.toList) ∧
      (∀ e ∈ added, d.edits.hasSpan e.span = false) ∧
      added = (tree.filter fun symbol => !symbol.isCompiled).findSome? (cx.adds? n d) := by
  intro tree added renamed
  have hnearby : ∀ s, n.Nearby s → s.start < s.stop :=
    fun _ hs => hfile.start_lt_of_nearby hn hwide hs
  have hrename : cx.renameSite n d = renamed := by
    rw [renameSite, hsymbol]
  have hrow : ∀ p : Symbol → Bool, (∀ symbol, symbol.isCompiled = false → p symbol = true) →
      (tree.filter p).findSome? (cx.adds? n d) = cx.adds? n d (.compiled overridden) := by
    intro p hp
    rw [adds?_compiled hnearby hfree]
    exact Symbol.findSome?_overridesAll (adds?_compiled hnearby hfree) hp overridden
  have hadded : added = cx.adds? n d (.compiled overridden) := by
    rw [← hrow (fun _ => true) fun _ _ => rfl, List.filter_true]
  refine ⟨fun hjava => ?_, fun hkotlin => ?_, ?_, ?_, ?_⟩
  · rw [visitJava, hjava, hfree, ← hrename]
    rfl
  · rw [visitKotlin, hkotlin]
    dsimp only
    rw [if_pos hfree, hrename]
  · rcases rename_cases hnearby hfree (.compiled overridden) with
      ⟨hsame, hnone⟩ | ⟨e, hnew, hedits, hsome⟩
    · rw [hadded, hnone, Option.toList_none, List.nil_append, hsame]
    · rw [hadded, hsome, hedits]
      exact Edits.perm_queue hnew
  · rw [hadded]
    rcases rename_cases hnearby hfree (.compiled overridden) with ⟨-, hnone⟩ | ⟨e, hnew, -, hsome⟩
    · rw [hnone]
      intro e he
      exact absurd he (Option.not_mem_none e)
    · rw [hsome]
      rintro _ ⟨⟩
      exact hnew
  · rw [hadded, hrow]
    intro symbol hplain
    rw [hplain]
    rfl

def fieldOf (owner name : String) : Symbol := .field ⟨.ofBinary owner, name, "I"⟩

/-- Fields of four classes, two of them further down. -/
def nestedOverrides : List Symbol :=
  [.compiled [fieldOf "A" "f", .compiled [fieldOf "B" "n"]], .compiled [], fieldOf "C" "f",
    fieldOf "D" "f"]

def overriding : SourceFile where
  name := ""
  language := .kotlin
  text := "x.f"
  tree := .node .sourceFile [.node .dotQualified [.node .nameRef [.token .ident "x"],
    .token .dot ".", .node .nameRef [.token .ident "f"]]]
  symbols := .ofList [((.nameRef, .ofWidth 2 1), .compiled nestedOverrides)]
  types := .empty
  scope := ⟨.empty, .empty⟩

/-- The field of `A` keeps its name, and that of `B` is called what is written already. -/
def overridingContext : Context where
  file := overriding
  renames := ((Renames.empty.declare "B" "B" fun c => c.addField "n" "f").declare "C" "C" fun c =>
    c.addField "f" "g").declare "D" "D" fun c => c.addField "f" "h"
  mixins := .empty
  forbidImplicit := false

def overridingSite : Site :=
  (overriding.sites.find? (·.span == .ofWidth 2 1)).getD overriding.root

def receiverReplaced : Draft := (Draft.ofText overriding.text).queue (.ofWidth 0 1) "y"

/-- The name is that of the field of `C`; what `D` calls it is not appended. -/
theorem overriding_renamed_once :
    overriding.Lossless ∧ overridingSite ∈ overriding.sites ∧
    overridingSite.span.start < overridingSite.span.stop ∧
    receiverReplaced.isFree overridingSite.span = true ∧
    overriding.symbol? overridingSite = some (.compiled nestedOverrides) ∧
    overridingContext.adds? overridingSite receiverReplaced (fieldOf "D" "f") =
      some ⟨.ofWidth 2 1, "h"⟩ ∧
    (overridingContext.visitKotlin receiverReplaced overridingSite).edits.toList.Perm
      [⟨.ofWidth 2 1, "g"⟩, ⟨.ofWidth 0 1, "y"⟩] := by
  have hfile : overridingContext.file.Lossless := ⟨_, rfl, by decide +kernel⟩
  have hn : overridingSite ∈ overridingContext.file.sites :=
    List.mem_of_find?_eq_some (p := (·.span == .ofWidth 2 1)) rfl
  have hwide : overridingSite.span.start < overridingSite.span.stop := by decide +kernel
  have hfree : receiverReplaced.isFree overridingSite.span = true := by decide +kernel
  have hsymbol : overridingContext.file.symbol? overridingSite =
      some (.compiled nestedOverrides) := by decide +kernel
  obtain ⟨-, hvisit, hperm, -, -⟩ := visit_overridden hfile hn hwide hfree hsymbol
  have hadded : (Symbol.compiled nestedOverrides).overrides.findSome?
      (overridingContext.adds? overridingSite receiverReplaced) = some ⟨.ofWidth 2 1, "g"⟩ := by
    decide +kernel
  rw [hadded] at hperm
  rw [hvisit (by decide +kernel)]
  exact ⟨hfile, hn, hwide, hfree, hsymbol, by decide +kernel, hperm⟩

end Context

end SourceRename
