import SourceRename.Syntax.Token

/-!
# Lossless trees

A tree has the tokens of a text as its leaves, blanks and comments included, so its text is the
text it was built from.  A tree knows no offsets: they follow from the widths of what stands to the
left (`Syntax/Site`).
-/

namespace SourceRename

/-- A token, or a node with its children from left to right. -/
inductive Tree
  | token (kind : Kind) (text : String)
  | node (kind : Kind) (children : List Tree)

namespace Tree

/-! ### Width, size and tokens -/

mutual

def width : Tree → Nat
  | .token _ text => text.utf8ByteSize
  | .node _ children => widthAll children

def widthAll : List Tree → Nat
  | [] => 0
  | t :: ts => t.width + widthAll ts

end

mutual

def size : Tree → Nat
  | .token _ _ => 1
  | .node _ children => 1 + sizeAll children

def sizeAll : List Tree → Nat
  | [] => 0
  | t :: ts => t.size + sizeAll ts

end

mutual

def tokens (start : Nat) : Tree → List Token
  | .token kind text => [⟨kind, text, start⟩]
  | .node _ children => tokensAll start children

def tokensAll (start : Nat) : List Tree → List Token
  | [] => []
  | t :: ts => t.tokens start ++ tokensAll (start + t.width) ts

end

mutual

def text : Tree → List Char
  | .token _ text => text.toList
  | .node _ children => textAll children

def textAll : List Tree → List Char
  | [] => []
  | t :: ts => t.text ++ textAll ts

end

theorem widthAll_append (xs ys : List Tree) : widthAll (xs ++ ys) = widthAll xs + widthAll ys := by
  induction xs with
  | nil => simp [widthAll]
  | cons x xs ih => simp [widthAll, ih, Nat.add_assoc]

end Tree

end SourceRename
