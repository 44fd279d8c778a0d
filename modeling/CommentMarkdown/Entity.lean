import CommentMarkdown.Text.Basic

/-!
# Named character references

Five names have a meaning: the four that escaping writes, and the unbreakable
blank, which Markdown shows as an ordinary one. A name without a meaning is put
back between its ampersand and semicolon, so no reference disappears.
-/

namespace CommentMarkdown.Entity

/-- The text that a reference of this name stands for. Names are case sensitive. -/
def decode (name : Text) : Text :=
  if name = "lt".toList then ['<']
  else if name = "gt".toList then ['>']
  else if name = "amp".toList then ['&']
  else if name = "nbsp".toList then [' ']
  else if name = "quot".toList then ['"']
  else '&' :: name ++ [';']

end CommentMarkdown.Entity
