import SourceRename.Rename.NewName

/-!
# Renaming one node

`Context.rename` queues what follows for a node from the symbol it stands for: the new name of a
field, a method, a class or a package, or a change between a getter call and a property where the
language allows it.
-/

namespace SourceRename.Context

/-! ### The identifier to rename -/

def isDeclaration (kind : Kind) : Bool :=
  [Kind.fieldDecl, .methodDecl, .funDecl, .propertyDecl, .classDecl].contains kind

/-- The identifier to rename: in a declaration the one spelled like the name, else the first; in a
reference the last. -/
def nameToken? (site : Site) (name : String) : Option Token :=
  if isDeclaration site.kind then
    (site.idents.find? (·.text == name)).or site.firstIdent?
  else site.lastIdent?

def replaceName (site : Site) (old new : String) (d : Draft) : Draft :=
  match nameToken? site old with
  | some token => d.replace token.span new
  | none => d

/-! ### Fields -/

/-- A field used without a qualifier in Java; the labels of a `switch` are always written so. -/
def isImplicitUse (cx : Context) (site : Site) : Bool :=
  !cx.file.isKotlin && site.kind == .referenceExpr && !site.isQualified &&
    !site.hasAncestor .switchLabel

def renameField (cx : Context) (site : Site) (field : Field) (d : Draft) : Draft :=
  match cx.fieldName? field with
  | none => d
  | some new =>
    if new = field.name then d
    else
      let d := replaceName site field.name new d
      if cx.isImplicitUse site && cx.forbidImplicit then
        d.report site.span.start (.implicitField field.name)
      else d

/-! ### Classes and packages -/

/-- Renames a reference to a class or package: the whole of it where the qualified name is spelled
out, in this node or the one around it, and else the simple name. -/
def renameQualified (cx : Context) (site : Site) (qualified lookup : String) (d : Draft) :
    Draft :=
  match cx.renames.find? lookup with
  | none => d
  | some c =>
    let new := c.newQualified
    if site.text = qualified then d.replace site.span new
    else
      match site.parent?.filter fun p =>
          (p.kind == .userType || p.kind == .dotQualified) && p.text == qualified with
      | some parent => if d.isFree parent.span then d.replace parent.span new else d
      | none => replaceName site (Naming.simpleName qualified) (Naming.simpleName new) d

def renameClass (cx : Context) (site : Site) (name : ClassName) (d : Draft) : Draft :=
  cx.renameQualified site name.qualified name.binary d

/-! ### Methods -/

/-- The call around a name that can become the property behind a renamed getter: not a call on
`super`, and nothing in it replaced already. -/
def propertyCall? (site : Site) (d : Draft) : Option Site := do
  let call ← site.parent?.filter (·.kind == .callExpr)
  let onSuper := call.parent?.any fun q =>
    q.kind == .dotQualified && q.nodes.head?.any (·.kind == .superExpr)
  if onSuper || !d.isFree call.span then none else some call

/-- The method is called like a getter, with no arguments and a result. -/
def isGetter (m : Method) : Bool := !m.hasParameters && !m.returnsVoid && !m.isStatic

/-- The property that a call of a renamed getter becomes in Kotlin, with the call. -/
def getterCall? (cx : Context) (site : Site) (m : Method) (new : String) (d : Draft) :
    Option (Span × String) := do
  if !cx.file.isKotlin || !isGetter m then none
  let property ← Naming.propertyOfGetter? new
  let call ← propertyCall? site d
  return (call.span, property)

def renameMethod (cx : Context) (site : Site) (m : Method) (d : Draft) : Draft :=
  if m.isConstructor then
    if site.kind = .nameRef then cx.renameClass site m.owner d else d
  else
    match cx.methodName? m with
    | none => d
    | some new =>
      if new = m.name then d
      else if site.kind = .methodDecl ∨ site.kind = .funDecl then replaceName site m.name new d
      else
        match cx.getterCall? site m new d with
        | some (call, property) => d.replace call property
        | none => replaceName site m.name new d

/-- Renames a property made of a getter: to the property of the new getter, or to a call of it. -/
def renameProperty (cx : Context) (site : Site) (getter : Method) (d : Draft) : Draft :=
  match cx.methodName? getter with
  | none => d
  | some new =>
    if new = getter.name then d
    else
      match site.lastIdent? with
      | none => d
      | some ident => d.replace ident.span ((Naming.propertyOfGetter? new).getD (new ++ "()"))

/-! ### Symbols -/

mutual

def rename (cx : Context) (site : Site) : Symbol → Draft → Draft
  | .field f, d => cx.renameField site f d
  | .method m, d => cx.renameMethod site m d
  | .function m, d => cx.renameMethod site m d
  | .classType name, d => cx.renameClass site name d
  | .package name, d => cx.renameQualified site name name d
  | .property getter, d => cx.renameProperty site getter d
  | .compiled overridden, d => cx.renameFirst site overridden d

/-- Goes through the overridden symbols until one of them queues a replacement. -/
def renameFirst (cx : Context) (site : Site) : List Symbol → Draft → Draft
  | [], d => d
  | symbol :: symbols, d =>
    let next := cx.rename site symbol d
    if next.edits.size = d.edits.size then cx.renameFirst site symbols next else next

end

end SourceRename.Context
