import CommentMarkdown.Text.Basic

/-!
# Escaping for markup

Three characters start or end markup and are written as references; inside a
quoted attribute value the quote is a fourth one. Everything else stands for
itself, so an escaped text can be read back one reference at a time.
-/

namespace CommentMarkdown.Text

/-- One character of running text inside markup. -/
def escapeChar (c : Char) : Text :=
  if c = '&' then "&amp;".toList
  else if c = '<' then "&lt;".toList
  else if c = '>' then "&gt;".toList
  else [c]

/-- One character of a quoted attribute value. -/
def escapeQuotedChar (c : Char) : Text :=
  if c = '"' then "&quot;".toList else escapeChar c

/-- Running text inside markup. -/
def escape (text : Text) : Text :=
  text.flatMap escapeChar

/-- A quoted attribute value. -/
def escapeQuoted (text : Text) : Text :=
  text.flatMap escapeQuotedChar

@[simp]
theorem escape_append (first second : Text) :
    escape (first ++ second) = escape first ++ escape second := by
  simp [escape]

end CommentMarkdown.Text
