import SourceRename.Renames.Basic

/-!
# Types and descriptors under renaming

A type in a descriptor is a row of `[` and a letter or a class `Lname;`; a method descriptor is
`(` the types of the arguments `)` and the type of the result.  Renaming replaces the names of
classes that have a new one and copies everything else, text that is no descriptor included.
-/

namespace SourceRename.Renames

/-- The class that a type without dimensions names. -/
def elementClass? : List Char → Option String
  | 'L' :: cs => if cs.getLast? = some ';' then some (String.ofList cs.dropLast) else none
  | _ => none

def element (type : List Char) : List Char := type.dropWhile (· == '[')

/-- The renames of the class that a type, or the elements of an array type, belong to. -/
def ofType? (r : Renames) (type : List Char) : Option ClassRename :=
  (elementClass? (element type)).bind r.find?

def renameType (r : Renames) (type : List Char) : List Char :=
  type.takeWhile (· == '[') ++
    match r.ofType? type with
    | some c => 'L' :: c.new.toList ++ [';']
    | none => element type

/-- Cuts a row of types.  `current` is what has been read of a type, latest first, and `named`
says that this is the beginning of a class name. -/
def typesFrom (current : List Char) (named : Bool) : List Char → List (List Char)
  | [] => if current.isEmpty then [] else [current.reverse]
  | c :: cs =>
    if named then
      if c = ';' then (c :: current).reverse :: typesFrom [] false cs
      else typesFrom (c :: current) true cs
    else if c = '[' then typesFrom (c :: current) false cs
    else if c = 'L' then typesFrom (c :: current) true cs
    else (c :: current).reverse :: typesFrom [] false cs

/-- The types in the argument list of a method descriptor.  What does not end is one type. -/
def types (arguments : List Char) : List (List Char) := typesFrom [] false arguments

/-- A method descriptor cut into its argument list and its result. -/
def signature? : List Char → Option (List Char × List Char)
  | '(' :: cs =>
    if ')' ∈ cs then
      some (cs.takeWhile (· != ')'), (cs.dropWhile (· != ')')).drop 1)
    else none
  | _ => none

def renameDescriptor (r : Renames) (descriptor : String) : String :=
  match signature? descriptor.toList with
  | some (arguments, result) =>
    String.ofList ('(' :: (types arguments).flatMap r.renameType ++ ')' :: r.renameType result)
  | none => descriptor

end SourceRename.Renames
