import CommentMarkdown.Markdown.Mark
import CommentMarkdown.Text.Escape

/-!
# Brace groups

Comment prose holds groups in braces. A group whose brace is followed by an at
sign is a directive: it has a name, possibly empty, and its style says what
becomes of its content. Every other group only loses its braces.

A prose text is a list of items. The same list has three readings: `sourceOf`
is the text that it stands in, `textOf` is its Markdown, and `markupOf` is the
Markdown handed on inside markup, where everything that an outermost styled
group yields is escaped and wrapped in one element of its own. Characters
outside such groups are markup already and are left alone.
-/

namespace CommentMarkdown.Directive

/-- What stands between the opening brace of a group and its content. -/
inductive Head
  /-- Nothing: the group is no directive. -/
  | plain
  /-- An at sign, a name and possibly one blank. -/
  | named (name : Text) (spaced : Bool)
  deriving DecidableEq, Repr

/-- How the content of a group is shown. -/
inductive Style
  /-- As code, between backticks. -/
  | code
  /-- As it is, but recognised: in markup it is shielded. -/
  | literal
  /-- As it is. -/
  | bare
  deriving DecidableEq, Repr

/-- A piece of prose: a character outside of any group, or a group. -/
inductive Item
  | char (c : Char)
  | group (head : Head) (body : List Item)
  deriving Repr

/-- The element around what an outermost styled group yields inside markup. -/
def shieldName : Text := "docmd-md".toList

namespace Head

/-- The characters of a head as they stand in the prose. -/
def source : Head → Text
  | plain => []
  | named name spaced => '@' :: name ++ (if spaced then [' '] else [])

/-- The style that a name calls for. -/
def style : Head → Style
  | plain => .bare
  | named name _ =>
    if name = "code".toList ∨ name = "link".toList ∨ name = "linkplain".toList then .code
    else if name = "literal".toList then .literal
    else .bare

/-- The name of a directive that calls for no style. -/
def unknownName? : Head → Option Text
  | plain => none
  | named name spaced => if (named name spaced).style = .bare then some name else none

end Head

/-- Content as its style shows it. -/
def Style.enclose : Style → Text → Text
  | .code, content => Markdown.codeSpan content
  | .literal, content => content
  | .bare, content => content

/-- Content shielded from being read as markup. -/
def shield (content : Text) : Text :=
  '<' :: shieldName ++ '>' :: Text.escape content ++ '<' :: '/' :: shieldName ++ ['>']

mutual

/-- The prose that an item stands for. -/
def Item.source : Item → Text
  | .char c => [c]
  | .group head body => '{' :: head.source ++ sourceOf body ++ ['}']

/-- The prose that a list of items stands for. -/
def sourceOf : List Item → Text
  | [] => []
  | item :: rest => item.source ++ sourceOf rest

end

mutual

/-- The Markdown of an item. -/
def Item.text : Item → Text
  | .char c => [c]
  | .group head body => head.style.enclose (textOf body)

/-- The Markdown of a list of items. -/
def textOf : List Item → Text
  | [] => []
  | item :: rest => item.text ++ textOf rest

end

mutual

/-- The Markdown of an item inside markup. -/
def Item.markup : Item → Text
  | .char c => [c]
  | .group head body =>
    if head.style = .bare then markupOf body
    else shield (head.style.enclose (textOf body))

/-- The Markdown of a list of items inside markup. -/
def markupOf : List Item → Text
  | [] => []
  | item :: rest => item.markup ++ markupOf rest

end

/-- Items stand in the prose one behind the other. -/
@[simp]
theorem sourceOf_append (first second : List Item) :
    sourceOf (first ++ second) = sourceOf first ++ sourceOf second := by
  induction first with
  | nil => rfl
  | cons item rest ih => simp [sourceOf, ih]

/-- Items are shown one behind the other. -/
@[simp]
theorem textOf_append (first second : List Item) :
    textOf (first ++ second) = textOf first ++ textOf second := by
  induction first with
  | nil => rfl
  | cons item rest ih => simp [textOf, ih]

/-- Items are handed to markup one behind the other. -/
@[simp]
theorem markupOf_append (first second : List Item) :
    markupOf (first ++ second) = markupOf first ++ markupOf second := by
  induction first with
  | nil => rfl
  | cons item rest ih => simp [markupOf, ih]

end CommentMarkdown.Directive
