import SourceRename.Symbol.Member

/-!
# What a node means

A name in a file stands for a field, a method, a class or a package.  A Kotlin property may stand
for a Java getter, and a callable without source is known by what it overrides.
-/

namespace SourceRename

/-- What a node of a file stands for. -/
inductive Symbol
  | field (field : Field)
  /-- A Java method or constructor. -/
  | method (method : Method)
  /-- A Kotlin function, seen as the method it compiles to. -/
  | function (method : Method)
  | classType (name : ClassName)
  /-- A package by its dotted name. -/
  | package (name : String)
  /-- A Kotlin property made of a Java getter. -/
  | property (getter : Method)
  /-- A callable without source, known by what it overrides. -/
  | compiled (overridden : List Symbol)

namespace Symbol

def label : Symbol → String
  | .field _ => "field"
  | .method _ => "method"
  | .function _ => "function"
  | .classType _ => "class"
  | .package _ => "package"
  | .property _ => "synthetic property"
  | .compiled _ => "compiled function"

/-! ### Equality -/

mutual

def same : Symbol → Symbol → Bool
  | .field a, .field b => a == b
  | .method a, .method b => a == b
  | .function a, .function b => a == b
  | .classType a, .classType b => a == b
  | .package a, .package b => a == b
  | .property a, .property b => a == b
  | .compiled as, .compiled bs => sameAll as bs
  | _, _ => false

def sameAll : List Symbol → List Symbol → Bool
  | [], [] => true
  | a :: as, b :: bs => a.same b && sameAll as bs
  | _, _ => false

end

mutual

theorem same_iff : ∀ a b : Symbol, a.same b = true ↔ a = b
  | .field _, b | .method _, b | .function _, b | .classType _, b | .package _, b
  | .property _, b => by cases b <;> simp [same]
  | .compiled as, b => by cases b <;> simp [same, sameAll_iff as]

theorem sameAll_iff : ∀ as bs : List Symbol, sameAll as bs = true ↔ as = bs
  | [], bs => by cases bs <;> simp [sameAll]
  | a :: as, bs => by
    cases bs with
    | nil => simp [sameAll]
    | cons b bs => simp [sameAll, same_iff a b, sameAll_iff as bs]

end

instance : DecidableEq Symbol := fun a b => decidable_of_iff _ (same_iff a b)

end Symbol

end SourceRename
