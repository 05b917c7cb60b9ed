import SourceRename.Template.Basic

/-!
# Reading templates

Every method of one file that carries a given annotation is a template; the method of the same name
in another file is its replacement.  Both must consist of a single statement, and must use
parameters equally often.
-/

namespace SourceRename.Template

/-- The tree that a method stands for: what its single statement returns, or else the statement. -/
def statement (method : Site) : Except TemplateError Site :=
  match method.child? .block with
  | none => .error .noBody
  | some body =>
    match body.statements with
    | [statement] =>
      if statement.kind = .returnStmt then
        match statement.firstExpression? with
        | some value => .ok value
        | none => .error .nothingReturned
      else .ok statement
    | statements => .error (.notOneStatement statements.length)

def readParameter (file : SourceFile) (site : Site) : Except TemplateError Parameter :=
  match site.lastIdent? with
  | some name => .ok ⟨name.text, file.type? site⟩
  | none => .error .unnamedParameter

def declaredParameters (method : Site) : List Site :=
  match method.child? .parameterList with
  | some list => list.parameters
  | none => []

/-- The text from `start` to `stop` around holes; no answer if a hole begins before the one before
it ends. -/
def fragments? (text : List Char) (start stop : Nat) : List Span → Option (List String)
  | [] => do
    let part ← if h : start ≤ stop then slice? text ⟨start, stop, h⟩ else none
    return [String.ofList part]
  | hole :: holes => do
    let part ← if h : start ≤ hole.start then slice? text ⟨start, hole.start, h⟩ else none
    let parts ← fragments? text hole.stop stop holes
    return String.ofList part :: parts

/-- The constructors called below a node, by the spans of the calls counted from its start. -/
def constructorsOf (file : SourceFile) (root : Site) : List (Span × Method) :=
  (root.preorder.filter (·.kind == .newExpr)).filterMap fun site =>
    match file.symbol? site with
    | some (.method m) =>
      if m.isConstructor then some (site.span.relativeTo root.start, m) else none
    | _ => none

def ofMethods (before : SourceFile) (method : Site) (after : SourceFile) (replacement : Site) :
    Except Fault Template := do
  let name := (method.methodName?.map (·.text)).getD ""
  let named {α : Type} (r : Except TemplateError α) : Except Fault α :=
    r.mapError (Fault.invalidTemplate name)
  let declared := declaredParameters method
  let parameters ← named (declared.mapM (readParameter before))
  let root ← named (statement method)
  let newRoot ← named (statement replacement)
  let captured := (holes parameters root).length
  let used := holes parameters newRoot
  if captured ≠ used.length then
    throw (.invalidTemplate name (.captureCount captured used.length))
  match fragments? after.text.toList newRoot.span.start newRoot.span.stop (used.map Site.span) with
  | none => throw .badCut
  | some fragments =>
    return {
      name, parameters
      variadic := declared.getLast?.any Site.isVariadic
      tree := .node root.kind root.children
      constructors := .ofList (constructorsOf before root)
      replacement := fragments }

def methodsOf (file : SourceFile) : List Site := file.sites.filter (·.kind == .methodDecl)

/-- Reads the template of a method, if the method has a name and carries the annotation. -/
def readMethod (before after : SourceFile) (mark : String) (method : Site) :
    Except Fault (Option Template) :=
  if method.annotations.any fun use => before.denotes use mark then
    match method.methodName? with
    | none => return none
    | some name =>
      match (methodsOf after).find? fun m => m.methodName?.any (·.text == name.text) with
      | none => throw (.missingReplacement name.text)
      | some replacement => some <$> ofMethods before method after replacement
  else return none

def readAll (before after : SourceFile) (mark : String) : Except Fault (List Template) := do
  let read ← (methodsOf before).mapM (readMethod before after mark)
  return read.filterMap id

end SourceRename.Template
