import CommentMarkdown.Diagnostic
import CommentMarkdown.Directive.Token

/-!
# Nesting of groups

The second step of reading prose matches the braces. One pass goes over the
tokens with the groups that are still open, innermost first, and the items that
have been read of the innermost one. A closing brace outside of every group is
an ordinary character.

There are two ways to fail. A group that opens below the deepest permitted level
is refused at its brace, before its head is looked at; a group that is still open
at the end is reported there. The position is carried along in bytes, since both
the errors and the remarks about unknown directives name it.
-/

namespace CommentMarkdown.Directive

/-- A group that is still open: its head and what stands in front of it, latest item first. -/
structure Pending where
  head : Head
  before : List Item

/-- Remarks on a directive without a meaning whose at sign stands at the given offset. -/
def Head.remark (head : Head) (offset : Nat) : Diagnosed Unit :=
  match head.unknownName? with
  | some name => Diagnosed.report (.unknownDirective name offset)
  | none => pure ()

/-- Matches the braces of the tokens that begin at a byte position, inside the pending groups
and behind the items of the innermost one, latest item first. -/
def nest (limit : Nat) : Nat → List Pending → List Item → List Token →
    Diagnosed (Except DirectiveError (List Item))
  | _, [], items, [] => pure (.ok items.reverse)
  | position, _ :: _, _, [] => pure (.error ⟨.unclosed, position⟩)
  | position, pending, items, .char c :: rest =>
    nest limit (position + c.utf8Size) pending (.char c :: items) rest
  | position, pending, items, .opening head :: rest =>
    if limit ≤ pending.length then pure (.error ⟨.tooDeep limit, position⟩)
    else do
      head.remark (position + 1)
      nest limit (position + 1 + Text.byteSize head.source) (⟨head, items⟩ :: pending) [] rest
  | position, [], items, .closing :: rest =>
    nest limit (position + 1) [] (.char '}' :: items) rest
  | position, group :: pending, items, .closing :: rest =>
    nest limit (position + 1) pending (.group group.head items.reverse :: group.before) rest

/-- Reads prose whose groups lie at most `limit` deep. -/
def parse (limit : Nat) (text : Text) : Diagnosed (Except DirectiveError (List Item)) :=
  nest limit 0 [] [] (Token.scan text)

end CommentMarkdown.Directive
