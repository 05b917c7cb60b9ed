import SourceRename.Table
import SourceRename.Text.Naming

/-!
# Rename tables

`Renames` holds the new names of classes and, for each class, of its fields and methods.  Class
names are kept with slashes, `a/pkg/A$Inner`, and looked up in any spelling.  A method entry is for
one descriptor or, without one, for all methods of its name; an entry with the descriptor wins.
-/

namespace SourceRename

/-- What a method entry is for: a name, and perhaps one descriptor. -/
structure MethodKey where
  name : String
  descriptor : Option String
deriving DecidableEq

/-- The new names of a class and its members. -/
structure ClassRename where
  old : String
  new : String
  fields : Table String String
  methods : Table MethodKey String

namespace ClassRename

/-- A class with a new name and unchanged members. -/
def ofNames (old new : String) : ClassRename :=
  ⟨Naming.internalName old, Naming.internalName new, .empty, .empty⟩

/-- The new name as written in source, `b.pkg.B.Inner`. -/
def newQualified (c : ClassRename) : String :=
  Naming.replaceChar '$' '.' (Naming.replaceChar '/' '.' c.new)

/-- The new name with `$` before nested classes, `b.pkg.B$Inner`. -/
def newBinary (c : ClassRename) : String := Naming.replaceChar '/' '.' c.new

def addField (c : ClassRename) (old new : String) : ClassRename :=
  { c with fields := c.fields.insert old new }

def addMethod (c : ClassRename) (key : MethodKey) (new : String) : ClassRename :=
  { c with methods := c.methods.insert key new }

def field? (c : ClassRename) (name : String) : Option String := c.fields.get? name

/-- New name of a method: by its descriptor, else by name alone. -/
def method? (c : ClassRename) (name descriptor : String) : Option String :=
  (c.methods.get? ⟨name, some descriptor⟩).or (c.methods.get? ⟨name, none⟩)

/-- New name of the first entry for methods of a name, whatever the descriptor. -/
def methodNamed? (c : ClassRename) (name : String) : Option String :=
  (c.methods.entries.find? (·.1.name == name)).map (·.2)

def countRenamedTo (c : ClassRename) (name : String) : Nat :=
  c.methods.values.countP (· == name)

def hasFields (c : ClassRename) : Bool := !c.fields.isEmpty

def hasMethods (c : ClassRename) : Bool := !c.methods.isEmpty

/-- The same names, whatever the order of the entries. -/
def same (c d : ClassRename) : Bool :=
  c.old == d.old && c.new == d.new && c.fields.sameEntries (· == ·) d.fields &&
    c.methods.sameEntries (· == ·) d.methods

end ClassRename

/-- The renames of a run, by old class name with slashes. -/
structure Renames where
  classes : Table String ClassRename

namespace Renames

def empty : Renames := ⟨.empty⟩

def size (r : Renames) : Nat := r.classes.size

def find? (r : Renames) (name : String) : Option ClassRename :=
  r.classes.get? (Naming.internalName name)

/-- Gives a class a new name and changes the names of its members; a class that has no entry gets
one. -/
def declare (r : Renames) (old new : String) (edit : ClassRename → ClassRename) : Renames :=
  let entry := (r.find? old).getD (.ofNames old new)
  ⟨r.classes.insert (Naming.internalName old)
    (edit { entry with new := Naming.internalName new })⟩

/-- The same renames, whatever the order of the entries. -/
def same (r s : Renames) : Bool := r.classes.sameEntries ClassRename.same s.classes

/-! ### Nested classes written with dots -/

def nestFirstDot : List Char → List Char
  | [] => []
  | c :: cs => if c = '.' then '$' :: cs else c :: nestFirstDot cs

def nestLastDot (name : String) : String :=
  String.ofList (nestFirstDot name.toList.reverse).reverse

theorem count_nestFirstDot {cs : List Char} (h : '.' ∈ cs) :
    (nestFirstDot cs).count '.' + 1 = cs.count '.' := by
  induction cs with
  | nil => simp at h
  | cons c cs ih =>
    rw [nestFirstDot]
    by_cases hc : c = '.'
    · simp [hc]
    · have hmem : '.' ∈ cs := (List.mem_cons.1 h).resolve_left (Ne.symm hc)
      simp [hc, ih hmem]

theorem count_nestLastDot {name : String} (h : '.' ∈ name.toList) :
    (nestLastDot name).toList.count '.' + 1 = name.toList.count '.' := by
  rw [nestLastDot, String.toList_ofList, List.count_reverse,
    count_nestFirstDot (List.mem_reverse.2 h), List.count_reverse]

/-- One round of the search for a class that may be nested: the answer, or the name to look up
next. -/
def nestedRound (r : Renames) (name : String) : Option ClassRename ⊕ String :=
  match r.find? name with
  | some c => .inl (some c)
  | none => if '.' ∈ name.toList then .inr (nestLastDot name) else .inl none

/-- A round that goes on leaves one dot less. -/
theorem count_nestedRound {r : Renames} {name next : String} (h : r.nestedRound name = .inr next) :
    next.toList.count '.' + 1 = name.toList.count '.' := by
  rw [nestedRound] at h
  split at h
  · simp at h
  · split at h
    · next hdot =>
      obtain rfl := Sum.inr.inj h
      exact count_nestLastDot hdot
    · simp at h

/-- The renames of a class as written in source: the dots of a name are read as nesting, from the
last one on, until a class is found. -/
def findNested? (r : Renames) (name : String) : Option ClassRename :=
  match _h : r.nestedRound name with
  | .inl answer => answer
  | .inr next => r.findNested? next
termination_by name.toList.count '.'
decreasing_by
  have := count_nestedRound _h
  omega

end Renames

end SourceRename
