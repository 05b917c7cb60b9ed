import SourceRename.Syntax.View
import SourceRename.Text.Quoted

/-!
# Values of literals
-/

namespace SourceRename.Site

def stringValue? (s : Site) : Option String :=
  match s.literalToken? with
  | some t => if t.kind = .string then Quoted.value? t.text else none
  | none => none

end SourceRename.Site
