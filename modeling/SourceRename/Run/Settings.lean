/-!
# Settings of a run
-/

namespace SourceRename

structure Settings where
  /-- Where compiled classes are found. -/
  paths : List String := []
  /-- The annotation that marks template methods; without one no templates are read. -/
  templateMark? : Option String := none
  /-- A renamed field used without a qualifier is an error. -/
  forbidImplicit : Bool := true
  /-- Files may be worked on at the same time; the outcome is the same. -/
  parallel : Bool := true

end SourceRename
