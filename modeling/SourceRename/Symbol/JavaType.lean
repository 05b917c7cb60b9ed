import SourceRename.Symbol.Ancestry

/-!
# Types and assignability

The types of expressions: primitive types, classes by binary name, arrays, and the type of `null`.
`JavaType.ofDescriptor?` and `JavaType.descriptor?` read and write the short form used in
descriptors, and `JavaType.accepts` says when a value of one type fits a place of another.
-/

namespace SourceRename

inductive Primitive
  | boolean | byte | char | short | int | long | float | double
deriving DecidableEq

namespace Primitive

def all : List Primitive := [.boolean, .byte, .char, .short, .int, .long, .float, .double]

def letter : Primitive → Char
  | .boolean => 'Z' | .byte => 'B' | .char => 'C' | .short => 'S'
  | .int => 'I' | .long => 'J' | .float => 'F' | .double => 'D'

def ofLetter? (c : Char) : Option Primitive := all.find? (·.letter == c)

def name : Primitive → String
  | .boolean => "boolean" | .byte => "byte" | .char => "char" | .short => "short"
  | .int => "int" | .long => "long" | .float => "float" | .double => "double"

/-- The class that holds one value of the type. -/
def box : Primitive → String
  | .boolean => "java.lang.Boolean" | .byte => "java.lang.Byte"
  | .char => "java.lang.Character" | .short => "java.lang.Short"
  | .int => "java.lang.Integer" | .long => "java.lang.Long"
  | .float => "java.lang.Float" | .double => "java.lang.Double"

/-- The types that a value of this type widens to, other than itself. -/
def widenings : Primitive → List Primitive
  | .byte => [.short, .int, .long, .float, .double]
  | .short | .char => [.int, .long, .float, .double]
  | .int => [.long, .float, .double]
  | .long => [.float, .double]
  | .float => [.double]
  | .boolean | .double => []

/-- A value of the second type fits the first as it is or by widening. -/
def accepts (place given : Primitive) : Bool := place == given || given.widenings.contains place

end Primitive

inductive JavaType
  | primitive (type : Primitive)
  /-- A class by binary name. -/
  | classType (binary : String)
  | array (component : JavaType)
  | null
deriving DecidableEq

namespace JavaType

/-- The class above all others. -/
def object : String := "java.lang.Object"

/-- The classes whose variables hold any array. -/
def arraySupertypes : List String := [object, "java.lang.Cloneable", "java.io.Serializable"]

def isReference : JavaType → Bool
  | .primitive _ => false
  | _ => true

def component? : JavaType → Option JavaType
  | .array c => some c
  | _ => none

def text : JavaType → String
  | .primitive p => p.name
  | .classType name => name
  | .array c => c.text ++ "[]"
  | .null => "null"

/-- The type as written in a descriptor; `null` has no descriptor. -/
def descriptor? : JavaType → Option (List Char)
  | .primitive p => some [p.letter]
  | .classType name => some ('L' :: (Naming.internalName name).toList ++ [';'])
  | .array c => c.descriptor?.map ('[' :: ·)
  | .null => none

def ofDescriptor? : List Char → Option JavaType
  | [] => none
  | '[' :: cs => (ofDescriptor? cs).map .array
  | 'L' :: cs =>
    if cs.getLast? = some ';' then
      some (.classType (Naming.replaceChar '/' '.' (String.ofList cs.dropLast)))
    else none
  | [c] => (Primitive.ofLetter? c).map .primitive
  | _ => none

/-- A value of type `given` can be assigned to a variable of type `place`. -/
def accepts (scope : Scope) (place given : JavaType) : Bool :=
  place == given ||
    match place, given with
    | .primitive p, .primitive q => p.accepts q
    | .primitive p, .classType name => name == p.box
    | .classType name, .primitive q => name == q.box || name == object
    | place, .null => place.isReference
    | .classType name, .array _ => arraySupertypes.contains name
    | .classType name, .classType sub => name == object || (scope.ancestry sub).contains name
    | .array c, .array d => c.isReference && d.isReference && c.accepts scope d
    | _, _ => false

end JavaType

end SourceRename
