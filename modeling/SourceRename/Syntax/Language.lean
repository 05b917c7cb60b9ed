/-!
# Source languages
-/

namespace SourceRename

inductive Language
  | java | kotlin
deriving DecidableEq

/-- Files ending in `.kt` or `.kts` are Kotlin, all others Java. -/
def Language.ofFileName (name : String) : Language :=
  if ".kt".toList.isSuffixOf name.toList || ".kts".toList.isSuffixOf name.toList then .kotlin
  else .java

end SourceRename
