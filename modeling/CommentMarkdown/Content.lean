import CommentMarkdown.Text.Basic

/-!
# Content

What a client that shows documentation is given: a text and the format that it
is in.
-/

namespace CommentMarkdown

/-- The format of a text. -/
inductive ContentKind
  | markdown
  | plainText
  deriving DecidableEq, Repr

/-- The name that clients know a format by. -/
def ContentKind.name : ContentKind → Text
  | .markdown => "markdown".toList
  | .plainText => "plaintext".toList

/-- A text and its format. -/
structure Content where
  kind : ContentKind
  value : Text
  deriving DecidableEq, Repr

/-- Markdown as content. -/
def Content.markdown (value : Text) : Content :=
  ⟨.markdown, value⟩

end CommentMarkdown
