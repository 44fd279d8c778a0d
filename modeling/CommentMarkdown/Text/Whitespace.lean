import CommentMarkdown.Text.Basic

/-!
# White space in Markdown

Prose from a comment is laid out for the source file that it stands in. Two
passes remove that layout. `collapse` works inside one piece of prose: a run of
white space that crosses a line break is one blank, and any other run keeps its
tabs but no two blanks side by side. `tidy` works on a whole section: nothing
blank at its ends, nothing blank at the end of a line, and never more than one
empty line in a row.

`tidy` is one pass from the right. A character is looked at together with what
is kept of the text behind it, and that is all that its fate depends on.
-/

namespace CommentMarkdown.Text

/-- Puts a character in front of a run, unless it is a second blank. -/
def consBlank (c : Char) (run : Text) : Text :=
  if c = ' ' ∧ run.head? = some ' ' then run else c :: run

/-- A maximal run of white space as prose shows it. -/
def collapseRun (run : Text) : Text :=
  if '\n' ∈ run then [' '] else run.foldr consBlank []

/-- Collapses a text behind a run of white space that is given latest character first. -/
def collapseAfter : Text → Text → Text
  | run, [] => collapseRun run.reverse
  | run, c :: rest =>
    if isSpace c then collapseAfter (c :: run) rest
    else collapseRun run.reverse ++ c :: collapseAfter [] rest

/-- Prose with each run of white space collapsed. -/
def collapse (text : Text) : Text :=
  collapseAfter [] text

/-- Puts a character in front of tidy text. Blanks and tabs in front of a line break
are left out, and so is a third line break in a row. -/
def consTidy (c : Char) (rest : Text) : Text :=
  if isSpacing c ∧ rest.head? = some '\n' then rest
  else if c = '\n' ∧ rest.take 2 = ['\n', '\n'] then rest
  else c :: rest

/-- A section without white space at its ends, without blanks at the end of a line and
with at most one empty line in a row. -/
def tidy (text : Text) : Text :=
  (trim text).foldr consTidy []

end CommentMarkdown.Text
