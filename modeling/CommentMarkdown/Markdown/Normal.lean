import CommentMarkdown.Directive.Resolve
import CommentMarkdown.Text.Whitespace

/-!
# Normal sections

Every finished section goes through the same clean-up: its white space is made
tidy, then its directives are resolved. The order matters. What a directive
yields is not tidied again, so blanks that were written inside a directive stay.
-/

namespace CommentMarkdown.Markdown

/-- The clean-up of a finished section. -/
def normalize (limits : Limits) (text : Text) : Diagnosed Text :=
  Directive.replace limits .text (Text.tidy text)

end CommentMarkdown.Markdown
