import SourceRename.Proofs.Rename.Passes
import SourceRename.Proofs.Syntax.StringLiterals

/-!
# What is left of the arguments of an accessor

An accessor stands for the member that the value of its annotation names, or else its own name.  The
member's new name is written in the place of all arguments:

    @Accessor("a") int getA();               @Accessor("b") int getA();
    @Accessor(value = "a") int getB();       @Accessor int getB();

So the accessor stands for the new name (`names_writtenArguments`).  Everything else that was
between the parentheses is gone, and if all of them are, then what was before them and behind them
stands side by side.  When nothing is lost in this way is what `Context.accessor_keeps_iff` says; an
attribute with a name of its own is always lost (`Mixin.attribute_lost`). -/

namespace SourceRename

def lexemes (ts : List Token) : List (Kind × String) := ts.map fun t => (t.kind, t.text)

/-- A name could go on from what is before the span to what is behind it. -/
def Span.joins (text : List Char) (s : Span) : Bool :=
  match splitBytes? s.start text, splitBytes? s.stop text with
  | some (before, _), some (_, behind) =>
    before.getLast?.any isNamePart && behind.head?.any isNamePart
  | _, _ => false

namespace Context

variable {cx : Context} {r : ClassRename} {kind : AccessKind} {method use attr : Site}
  {old new : String}

/-! ### What an accessor stands for -/

def accessName (method : Site) : String := (method.methodName?.map (·.text)).getD ""

def accessed? (method use : Site) : Option String :=
  (givenValue? use).or (Naming.accessedMember? (accessName method))

/-- The arguments that are written for a member: none if the name of the method says it. -/
def writtenArguments (method : Site) (member : String) : String :=
  if Naming.accessedMember? (accessName method) = some member then ""
  else "(" ++ Quoted.literal member ++ ")"

/-- With these arguments a method of this name stands for the member: there are none, and the name
says so, or they are a string with the name of the member. -/
def Names (name arguments member : String) : Prop :=
  (arguments = "" ∧ Naming.accessedMember? name = some member) ∨
    ∃ literal, lexemes (tokenize arguments) =
        [(.lParen, "("), (.string, literal), (.rParen, ")")] ∧
      Quoted.value? literal = some member

theorem renameAccess_eq_replace {d : Draft} (hold : accessed? method use = some old)
    (hnew : kind.newName? r old = some new) (hne : new ≠ old) :
    renameAccess r method use kind d =
      d.replace (argumentSpan use) (writtenArguments method new) := by
  rw [accessed?, accessName] at hold
  rw [renameAccess, hold]
  dsimp only
  rw [hnew]
  dsimp only
  rw [if_neg hne, writtenArguments, accessName]
  split
  · rfl
  · rfl

theorem edits_renameAccess {d : Draft}
    (h : ¬ ∃ old new, accessed? method use = some old ∧ kind.newName? r old = some new ∧ new ≠ old) :
    (renameAccess r method use kind d).edits = d.edits := by
  rw [renameAccess]
  split
  · rfl
  · next old hold =>
    split
    · rfl
    · next new hnew =>
      by_cases hne : new = old
      · rw [if_pos hne]
      · exact absurd ⟨old, new, hold, hnew, hne⟩ h

/-! ### The arguments that are written -/

theorem tokenize_argument (member : String) :
    lexemes (tokenize ("(" ++ Quoted.literal member ++ ")")) =
      [(.lParen, "("), (.string, Quoted.literal member), (.rParen, ")")] := by
  have hchars : ("(" ++ Quoted.literal member ++ ")").toList =
      '(' :: ((Quoted.literal member).toList ++ [')']) := by
    rw [String.toList_append, String.toList_append]
    rfl
  have hreads : Reads 0 ('(' :: ((Quoted.literal member).toList ++ [')'])) _ :=
    .lParen (.literal member (.rParen (.nil _)))
  rw [tokenize, hchars, ← hreads.eq_tokensFrom]
  rfl

theorem names_writtenArguments (method : Site) (member : String) :
    Names (accessName method) (writtenArguments method member) member := by
  rw [writtenArguments]
  by_cases himplied : Naming.accessedMember? (accessName method) = some member
  · rw [if_pos himplied]
    exact .inl ⟨rfl, himplied⟩
  · rw [if_neg himplied]
    exact .inr ⟨Quoted.literal member, tokenize_argument member, Quoted.value?_literal member⟩

theorem writtenArguments_eq_empty_iff {member : String} : writtenArguments method member = "" ↔
    Naming.accessedMember? (accessName method) = some member := by
  rw [writtenArguments]
  by_cases himplied : Naming.accessedMember? (accessName method) = some member
  · rw [if_pos himplied]
    exact ⟨fun _ => himplied, fun _ => rfl⟩
  · rw [if_neg himplied]
    refine ⟨fun hempty => ?_, fun h => absurd h himplied⟩
    have hchars := congrArg String.toList hempty
    rw [String.toList_append, String.toList_append] at hchars
    exact absurd hchars (List.cons_ne_nil _ _)

theorem kind_ne_eq_of_mem {member : String} {l : Kind × String}
    (hl : l ∈ lexemes (tokenize (writtenArguments method member))) : l.1 ≠ .eq := by
  rw [writtenArguments] at hl
  split at hl
  · exact absurd hl List.not_mem_nil
  · rw [tokenize_argument] at hl
    rcases List.mem_cons.1 hl with rfl | hl
    · exact nofun
    · rcases List.mem_pair.1 hl with rfl | rfl
      · exact nofun
      · exact nofun

/-! ### What is kept -/

/-- Everything but the member is kept when the arguments of an annotation are replaced. -/
structure KeepsRest (text : List Char) (use : Site) (arguments : String) : Prop where
  /-- There was no value, or a string. -/
  value : use.valueAttribute? = none ∨ (givenValue? use).isSome = true
  /-- Every other attribute is there. -/
  others : ∀ attr ∈ use.attributes, attr.isValueAttribute = false →
    lexemes attr.tokens <:+: lexemes (tokenize arguments)
  /-- The annotation does not run into what is behind it. -/
  apart : arguments = "" → (argumentSpan use).joins text = false

theorem exists_eq_of_not_value (h : attr.isValueAttribute = false) :
    ∃ l ∈ lexemes attr.tokens, l.1 = .eq := by
  have hsign : attr.hasToken .eq = true := by
    by_contra hnot
    rw [Site.isValueAttribute, Site.attributeName?, if_neg hnot] at h
    exact absurd h (by decide)
  obtain ⟨t, ht⟩ := Option.isSome_iff_exists.1 hsign
  have hdirect := List.mem_of_find?_eq_some ht
  have hkind := List.find?_some ht
  refine ⟨(t.kind, t.text), ?_, beq_iff_eq.1 hkind⟩
  exact List.mem_map_of_mem (f := fun t : Token => (t.kind, t.text))
    (Site.mem_tokens_of_mem_directTokens hdirect)

/-- **What the arguments that are written keep.**  Nothing but the member changes if there was no
other attribute than a value, this was a string, and the annotation is apart from what is behind it
if it has no arguments any more; and only then. -/
theorem keepsRest_iff {text : List Char} (member : String) :
    KeepsRest text use (writtenArguments method member) ↔
      (use.valueAttribute? = none ∨ (givenValue? use).isSome = true) ∧
      (∀ attr ∈ use.attributes, attr.isValueAttribute = true) ∧
      (Naming.accessedMember? (accessName method) = some member →
        (argumentSpan use).joins text = false) := by
  constructor
  · intro h
    refine ⟨h.value, fun attr hattr => ?_, fun himplied => ?_⟩
    · by_contra hnot
      rw [Bool.not_eq_true] at hnot
      obtain ⟨l, hl, heq⟩ := exists_eq_of_not_value hnot
      exact kind_ne_eq_of_mem ((h.others attr hattr hnot).subset hl) heq
    · exact h.apart (writtenArguments_eq_empty_iff.2 himplied)
  · rintro ⟨hvalue, hattributes, hapart⟩
    refine ⟨hvalue, fun attr hattr hnot => ?_, fun hempty => ?_⟩
    · rw [hattributes attr hattr] at hnot
      exact absurd hnot (by decide)
    · exact hapart (writtenArguments_eq_empty_iff.1 hempty)

/-- **Accessors and invokers.**  When the pass comes to one, and the member it stands for has
another name, then the arguments of the annotation are replaced by those for the new name; with them
the method stands for the new name.  If there is no other name, nothing is replaced.  Everything
else is kept exactly if the annotation has no attribute but its value, this is a string where there
is one, and the annotation is apart from what is behind it where it has no arguments any more. -/
theorem accessor_keeps_iff (d₀ : Draft) {before behind : List MixinStep} {cx' : Context} {mixin : Site}
    {target : MixinTarget}
    (hsteps : cx.mixinSteps =
      before ++ .member cx' ⟨mixin, target, .access method use kind⟩ :: behind) :
    let d := before.foldl MixinStep.run d₀
    ∃ e : Draft, (cx.renameMixins d₀).2 = behind.foldl MixinStep.run e ∧
      (∀ old new, accessed? method use = some old → kind.newName? target.renames old = some new →
        new ≠ old →
        e = d.replace (argumentSpan use) (writtenArguments method new) ∧
        Names (accessName method) (writtenArguments method new) new ∧
        (KeepsRest cx.file.text.toList use (writtenArguments method new) ↔
          (use.valueAttribute? = none ∨ (givenValue? use).isSome = true) ∧
          (∀ attr ∈ use.attributes, attr.isValueAttribute = true) ∧
          (Naming.accessedMember? (accessName method) = some new →
            (argumentSpan use).joins cx.file.text.toList = false))) ∧
      ((¬ ∃ old new, accessed? method use = some old ∧
          kind.newName? target.renames old = some new ∧ new ≠ old) → e.edits = d.edits) := by
  intro d
  refine ⟨renameAccess target.renames method use kind d, ?_, ?_, edits_renameAccess⟩
  · rw [renameMixins_eq, hsteps, List.foldl_append, List.foldl_cons]
    rfl
  · intro old new hold hnew hne
    exact ⟨renameAccess_eq_replace hold hnew hne, names_writtenArguments method new,
      keepsRest_iff new⟩

end Context

/-! ### An accessor with arguments -/

namespace Mixin

/-- An accessor method of the given name, with arguments. -/
def accessorWith (arguments : List Tree) (name : String) : Tree :=
  .node .methodDecl [
    .node .modifierList [.node .annotationUse [.token .at "@", .token .ident "Accessor",
      .node .annotationArgs ([.token .lParen "("] ++ arguments ++ [.token .rParen ")"])]],
    .token .whitespace " ", .token .ident "int", .token .whitespace " ", .token .ident name,
    .token .lParen "(", .token .rParen ")", .token .semicolon ";"]

def accessing (text : String) (accessor : Tree) : SourceFile where
  name := "M.java"
  language := .java
  text := text
  tree := .node .sourceFile [classWith (targeting "A") "M" accessor]
  symbols := .ofList [((.classDecl, .ofWidth 0 text.utf8ByteSize), .classType (.ofBinary "M")),
    ((.reference, .ofWidth 7 1), .classType (.ofBinary "A"))]
  types := .empty
  scope := ⟨.empty, .empty⟩

/-- The accessor `@Accessor("a") int getB();`. -/
def named : SourceFile :=
  accessing "@Mixin(A.class)class M\x7b@Accessor(\"a\") int getB();\x7d"
    (accessorWith [.node .annotationAttr [.node .literal [.token .string "\"a\""]]] "getB")

/-- The accessor `@Accessor(value="a",remap=false) int a();`. -/
def qualified : SourceFile :=
  accessing "@Mixin(A.class)class M\x7b@Accessor(value=\"a\",remap=false) int a();\x7d"
    (accessorWith [
      .node .annotationAttr [.token .ident "value", .token .eq "=",
        .node .literal [.token .string "\"a\""]],
      .token .comma ",",
      .node .annotationAttr [.token .ident "remap", .token .eq "=",
        .node .literal [.token .falseKw "false"]]] "a")

def accessRun : Run where
  renames := Renames.empty.declare "A" "A" fun c => c.addField "a" "b"
  templates := []
  settings := {}

/-- The string is left out, since the name of the method says the same. -/
theorem argument_dropped :
    ∃ (cx' : Context) (mixin method use : Site) (target : MixinTarget),
      (Context.ofFile named accessRun.renames accessRun.settings.forbidImplicit).mixinSteps =
        [] ++ .member cx' ⟨mixin, target, .access method use .accessor⟩ :: [] ∧
      Context.accessed? method use = some "a" ∧
      AccessKind.newName? target.renames "a" .accessor = some "b" ∧
      Context.writtenArguments method "b" = "" ∧
      Context.Names (Context.accessName method) (Context.writtenArguments method "b") "b" ∧
      Context.KeepsRest named.text.toList use (Context.writtenArguments method "b") ∧
      accessRun.report named = .ok ⟨"@Mixin(A.class)class M\x7b@Accessor int getB();\x7d", [], []⟩ := by
  obtain ⟨cx', mixin, method, use, target, hsteps, hold, hnew, hgiven, hvalues, hjoins, hwritten⟩ :
      ∃ (cx' : Context) (mixin method use : Site) (target : MixinTarget),
        (Context.ofFile named accessRun.renames accessRun.settings.forbidImplicit).mixinSteps =
          [] ++ .member cx' ⟨mixin, target, .access method use .accessor⟩ :: [] ∧
        Context.accessed? method use = some "a" ∧
        AccessKind.newName? target.renames "a" .accessor = some "b" ∧
        (Context.givenValue? use).isSome = true ∧
        use.attributes.all Site.isValueAttribute = true ∧
        (Context.argumentSpan use).joins named.text.toList = false ∧
        Context.writtenArguments method "b" = "" :=
    ⟨_, _, _, _, _, rfl, rfl, rfl, rfl, rfl, rfl, rfl⟩
  obtain ⟨e, -, hrenamed, -⟩ := Context.accessor_keeps_iff (.ofText named.text) hsteps
  obtain ⟨-, hnames, hkeeps⟩ := hrenamed "a" "b" hold hnew (by decide)
  refine ⟨cx', mixin, method, use, target, hsteps, hold, hnew, hwritten, hnames, hkeeps.2 ?_,
    by decide +kernel⟩
  exact ⟨.inr hgiven, List.all_eq_true.1 hvalues, fun _ => hjoins⟩

/-- **An attribute of another name is lost.** -/
theorem attribute_lost :
    accessRun.report qualified =
      .ok ⟨"@Mixin(A.class)class M\x7b@Accessor(\"b\") int a();\x7d", [], []⟩ ∧
    ¬ ∀ (cx : Context) (before behind : List MixinStep) (cx' : Context) (mixin method use : Site)
        (target : MixinTarget) (kind : AccessKind) (old new : String),
      cx.mixinSteps = before ++ .member cx' ⟨mixin, target, .access method use kind⟩ :: behind →
      Context.accessed? method use = some old → kind.newName? target.renames old = some new →
      new ≠ old →
      Context.KeepsRest cx.file.text.toList use (Context.writtenArguments method new) := by
  refine ⟨by decide +kernel, fun h => ?_⟩
  obtain ⟨cx', mixin, method, use, target, hsteps, hold, hnew, hvalues⟩ :
      ∃ (cx' : Context) (mixin method use : Site) (target : MixinTarget),
        (Context.ofFile qualified accessRun.renames accessRun.settings.forbidImplicit).mixinSteps =
          [] ++ .member cx' ⟨mixin, target, .access method use .accessor⟩ :: [] ∧
        Context.accessed? method use = some "a" ∧
        AccessKind.newName? target.renames "a" .accessor = some "b" ∧
        use.attributes.all Site.isValueAttribute = false :=
    ⟨_, _, _, _, _, rfl, rfl, rfl, rfl⟩
  have hkeeps := h _ [] [] cx' mixin method use target .accessor "a" "b" hsteps hold hnew (by decide)
  have hall := List.all_eq_true.2 ((Context.keepsRest_iff "b").1 hkeeps).2.1
  rw [hvalues] at hall
  exact absurd hall (by decide)

end Mixin

end SourceRename
