import CommentMarkdown.Comment.Node

/-!
# Block tags

A block tag is one statement about the whole declaration: who wrote it, what a
parameter means, what can go wrong. It is rendered as a label, followed by what
it is about and what is said of it; a part that is blank leaves its separator
out as well. A tag that was not recognised is copied.
-/

namespace CommentMarkdown

/-- A statement behind the prose of a comment. -/
inductive BlockTag
  | author (name : List Node)
  | since (body : List Node)
  | see (reference : List Node)
  /-- A parameter, or a type parameter, with its name. -/
  | param (name : Text) (isType : Bool) (description : List Node)
  | returns (description : List Node)
  | throws (exception : Text) (description : List Node)
  | deprecated (body : List Node)
  | unknown (source : Text)
  deriving Repr, Inhabited

namespace BlockTag

/-- The name of a tag in remarks. -/
def name : BlockTag → Text
  | author .. => "author".toList
  | since .. => "since".toList
  | see .. => "see".toList
  | param _ isType _ => if isType then "typeparam".toList else "param".toList
  | returns .. => "return".toList
  | throws .. => "throws".toList
  | deprecated .. => "deprecated".toList
  | unknown .. => "unknown".toList

/-- A line with a part behind a separator, unless that part is blank. -/
def extend (line separator part : Text) : Text :=
  if Text.isBlank part then line else line ++ separator ++ part

/-- A tag as one piece of Markdown. -/
def render (limits : Limits) : BlockTag → Diagnosed Text
  | author name => extend "@author".toList [' '] <$> Node.renderAll limits name
  | since body => extend "@since".toList [' '] <$> Node.renderAll limits body
  | see reference => extend "@see".toList [' '] <$> Node.renderAll limits reference
  | param name isType description =>
    extend (extend (if isType then "@typeparam".toList else "@param".toList) [' '] name)
      " - ".toList <$> Node.renderAll limits description
  | returns description => extend "@return".toList [' '] <$> Node.renderAll limits description
  | throws exception description =>
    extend (extend "@throws".toList [' '] exception) " - ".toList <$>
      Node.renderAll limits description
  | deprecated body => extend "@deprecated".toList [' '] <$> Node.renderAll limits body
  | unknown source => pure source

/-- A tag after the remark that it is being formatted. -/
def renderRemarked (limits : Limits) (tag : BlockTag) : Diagnosed Text := do
  Diagnosed.report (.formattingTag tag.name)
  tag.render limits

/-- All tags of a comment, joined by line breaks and cleaned up as one section. -/
def renderAll (limits : Limits) (tags : List BlockTag) : Diagnosed Text := do
  let lines ← tags.mapM (renderRemarked limits)
  Markdown.normalize limits (['\n'].intercalate lines)

end BlockTag

end CommentMarkdown
