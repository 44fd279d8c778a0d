import CommentMarkdown.Text.Basic

/-!
# Marks

Rendered text is prose with marks in it. A span of code has one on either side,
whatever stands between them. An element of a comment is shown as a mark for its
start and one for its end, and an element that Markdown has no mark for is not
shown at all.
-/

namespace CommentMarkdown.Markdown

/-- Text between single backticks. -/
def codeSpan (content : Text) : Text :=
  '\x60' :: content ++ ['\x60']

/-- What the start of an element is shown as. The name is in small letters. -/
def startMark (name : Text) : Text :=
  if name = "p".toList then "\n\n".toList
  else if name = "br".toList then "\n".toList
  else if name = "pre".toList then "\n\n\x60\x60\x60\n".toList
  else if name = "code".toList then "\x60".toList
  else if name = "b".toList ∨ name = "strong".toList then "**".toList
  else if name = "i".toList ∨ name = "em".toList then "*".toList
  else []

/-- What the end of an element is shown as. It is the start's mark, except that a line
break has no end and a block of code ends on a line of its own. -/
def endMark (name : Text) : Text :=
  if name = "br".toList then []
  else if name = "pre".toList then "\n\x60\x60\x60\n".toList
  else startMark name

end CommentMarkdown.Markdown
