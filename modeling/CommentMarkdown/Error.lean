import CommentMarkdown.Text.Basic

/-!
# Causes of failure

A text can fail to be read for two kinds of reason: its brace groups do not
nest, or no markup tree can be made of it. Each cause carries what its message
names; the wording is in one function per kind.
-/

namespace CommentMarkdown

/-- Why brace groups could not be resolved. -/
inductive DirectiveFault
  /-- A group is still open at the end. -/
  | unclosed
  /-- A group opens more than `limit` groups deep. -/
  | tooDeep (limit : Nat)
  deriving DecidableEq, Repr

/-- A fault and the byte offset at which resolving stopped. -/
structure DirectiveError where
  fault : DirectiveFault
  position : Nat
  deriving DecidableEq, Repr

/-- The wording of a fault. -/
def DirectiveFault.message : DirectiveFault → Text
  | .unclosed => "want \x60\x7d\x60 got end of input".toList
  | .tooDeep limit => "brace nesting deeper than ".toList ++ Text.decimal limit

/-- The wording of an error, without its position. -/
def DirectiveError.message (error : DirectiveError) : Text :=
  error.fault.message

/-- Why no markup tree could be made of a text. -/
inductive MarkupError
  /-- The text is longer than an HTML reader takes. -/
  | tooLarge
  /-- The HTML reader gave no document. -/
  | noDocument
  /-- The document does not contain the root element that was put around the text. -/
  | noRoot
  /-- An element lies more than `limit` elements deep. -/
  | tooDeep (limit : Nat)
  deriving DecidableEq, Repr

/-- The wording of an error. -/
def MarkupError.message : MarkupError → Text
  | .tooLarge => "input too large".toList
  | .noDocument => "HTML parser produced no document".toList
  | .noRoot => "synthetic root element missing from parsed document".toList
  | .tooDeep limit => "element nesting deeper than ".toList ++ Text.decimal limit

end CommentMarkdown
