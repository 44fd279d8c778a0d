import CommentMarkdown.Directive.Nesting
import CommentMarkdown.Limits

/-!
# Resolving directives

Resolving replaces every group of a text by what it yields. A text without an
opening brace has no group, so it is not read at all. A text whose groups do not
nest is an error to `resolve`; `replace` leaves it as it is and remarks on it.
-/

namespace CommentMarkdown.Directive

/-- Where resolved prose goes. -/
inductive Target
  /-- It is Markdown. -/
  | text
  /-- It is markup to be read. -/
  | markup
  deriving DecidableEq, Repr

/-- The items as the target wants them. -/
def Target.render : Target → List Item → Text
  | .text => textOf
  | .markup => markupOf

/-- The text with its groups resolved, or why they do not nest. -/
def resolve (limits : Limits) (target : Target) (text : Text) :
    Diagnosed (Except DirectiveError Text) :=
  if '{' ∈ text then
    (fun read => read.map target.render) <$> parse limits.directiveDepth text
  else pure (.ok text)

/-- The text with its groups resolved, or the text itself if they do not nest. -/
def replace (limits : Limits) (target : Target) (text : Text) : Diagnosed Text := do
  match ← resolve limits target text with
  | .ok resolved => pure resolved
  | .error error =>
    Diagnosed.report (.keptUnchanged error)
    pure text

end CommentMarkdown.Directive
