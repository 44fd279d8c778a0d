import CommentMarkdown.Comment.BlockTag
import CommentMarkdown.Content

/-!
# Comments

A comment has three sections: the sentence that sums it up, what follows it, and
the block tags. Each is rendered and cleaned up on its own, and those that say
something are set apart by an empty line.
-/

namespace CommentMarkdown

/-- The documentation of one declaration. -/
structure Comment where
  summary : List Node
  body : List Node
  tags : List BlockTag
  deriving Repr

namespace Comment

/-- Sections with an empty line between those that are not blank. -/
def joinSections (sections : List Text) : Text :=
  "\n\n".toList.intercalate (sections.filter fun part => !Text.isBlank part)

/-- A comment as Markdown. -/
def render (limits : Limits) (comment : Comment) : Diagnosed Text := do
  let summary ← Node.renderAll limits comment.summary
  let body ← Node.renderAll limits comment.body
  let tags ← BlockTag.renderAll limits comment.tags
  pure (joinSections [summary, body, tags])

/-- A comment as content for a client. -/
def toContent (limits : Limits) (comment : Comment) : Diagnosed Content :=
  Content.markdown <$> comment.render limits

end Comment

end CommentMarkdown
