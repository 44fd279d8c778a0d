import CommentMarkdown.Comment.Basic
import CommentMarkdown.Log.Attended
import CommentMarkdown.Markup.Convert

/-!
# The library under a logger

What the library computes, with each remark put to the logger where it arises. Each function goes
step for step like the one that collects its remarks instead. A reader of HTML is given here and
asked in passing, for what the directives of a text have been resolved to.
-/

namespace CommentMarkdown.Attended

open Directive (Head Item Pending Target Token)

/-- Remarks on a directive without a meaning whose at sign stands at the given offset. -/
def remarkHead (head : Head) (offset : Nat) : Attended Unit :=
  match head.unknownName? with
  | some name => remark (.unknownDirective name offset)
  | none => pure ()

/-- Matches the braces of tokens, inside the pending groups. -/
def nest (limit : Nat) : Nat → List Pending → List Item → List Token →
    Attended (Except DirectiveError (List Item))
  | _, [], items, [] => pure (.ok items.reverse)
  | position, _ :: _, _, [] => pure (.error ⟨.unclosed, position⟩)
  | position, pending, items, .char c :: rest =>
    nest limit (position + c.utf8Size) pending (.char c :: items) rest
  | position, pending, items, .opening head :: rest =>
    if limit ≤ pending.length then pure (.error ⟨.tooDeep limit, position⟩)
    else do
      remarkHead head (position + 1)
      nest limit (position + 1 + Text.byteSize head.source) (⟨head, items⟩ :: pending) [] rest
  | position, [], items, .closing :: rest =>
    nest limit (position + 1) [] (.char '}' :: items) rest
  | position, group :: pending, items, .closing :: rest =>
    nest limit (position + 1) pending (.group group.head items.reverse :: group.before) rest

/-- The text with its groups resolved, or why they do not nest. -/
def resolve (limits : Limits) (target : Target) (text : Text) :
    Attended (Except DirectiveError Text) :=
  if '{' ∈ text then do
    let read ← nest limits.directiveDepth 0 [] [] (Token.scan text)
    pure (read.map target.render)
  else pure (.ok text)

/-- The text with its groups resolved, or the text itself if they do not nest. -/
def replace (limits : Limits) (target : Target) (text : Text) : Attended Text := do
  match ← resolve limits target text with
  | .ok resolved => pure resolved
  | .error error =>
    remark (.keptUnchanged error)
    pure text

/-- The clean-up of a finished section. -/
def normalize (limits : Limits) (text : Text) : Attended Text :=
  replace limits .text (Text.tidy text)

/-- A sequence at a depth, cleaned up, or nothing if it lies below the limit. -/
@[macro_inline]
def sectionAt (limits : Limits) (depth : Nat) (content : Attended Text) : Attended Text :=
  if limits.markupDepth < depth then do
    remark (.droppedReference limits.markupDepth)
    pure []
  else content >>= normalize limits

mutual

/-- A node at a depth, between the elements that are open in front of it. -/
def renderNode (limits : Limits) (depth : Nat) (opened : List Text) : Node → Attended Text
  | .text body => pure (if Node.insideCode opened then body else Text.collapse body)
  | .literal body => pure (Markdown.codeSpan body)
  | .link label reference => do
    let shown ← sectionAt limits (depth + 1) (renderSequence limits (depth + 1) [] label)
    pure (Node.linkText shown reference)
  | .see reference => sectionAt limits (depth + 1) (renderSequence limits (depth + 1) [] reference)
  | .start name => pure (Markdown.startMark (Text.lower name))
  | .finish name => do
    if Text.lower name ∉ opened then
      remark (.neverOpened (Text.lower name))
    pure (Markdown.endMark (Text.lower name))
  | .entity name => pure (Entity.decode name)
  | .erroneous body => do
    remark (.copiedAsIs (Node.erroneous body).kindName)
    pure body
  | .unknownTag source => do
    remark (.copiedAsIs (Node.unknownTag source).kindName)
    pure source

/-- A sequence of nodes at a depth, before its clean-up. -/
def renderSequence (limits : Limits) (depth : Nat) (opened : List Text) :
    List Node → Attended Text
  | [] => pure []
  | node :: rest => do
    let first ← renderNode limits depth opened node
    let others ← renderSequence limits depth (node.openBehind opened) rest
    pure (first ++ others)

end

/-- What a link puts to the logger comes from its label. -/
theorem renderNode_link (limits : Limits) (depth : Nat) (opened : List Text) (label : List Node)
    (reference : Text) :
    renderNode limits depth opened (.link label reference) = (do
      let shown ← sectionAt limits (depth + 1) (renderSequence limits (depth + 1) [] label)
      pure (Node.linkText shown reference)) :=
  rfl

/-- What a reference puts to the logger comes from its own sequence. -/
theorem renderNode_see (limits : Limits) (depth : Nat) (opened : List Text)
    (reference : List Node) :
    renderNode limits depth opened (.see reference) =
      sectionAt limits (depth + 1) (renderSequence limits (depth + 1) [] reference) :=
  rfl

/-- An end is put to the logger if no element of its name is open. -/
theorem renderNode_finish (limits : Limits) (depth : Nat) (opened : List Text) (name : Text) :
    renderNode limits depth opened (.finish name) = (do
      if Text.lower name ∉ opened then
        remark (.neverOpened (Text.lower name))
      pure (Markdown.endMark (Text.lower name))) :=
  rfl

/-- A whole sequence as Markdown. -/
def renderNodes (limits : Limits) (nodes : List Node) : Attended Text :=
  sectionAt limits 0 (renderSequence limits 0 [] nodes)

/-- A tag as one piece of Markdown, after the remark that it is being formatted. -/
def renderTag (limits : Limits) (tag : BlockTag) : Attended Text := do
  remark (.formattingTag tag.name)
  match tag with
  | .author name => BlockTag.extend "@author".toList [' '] <$> renderNodes limits name
  | .since body => BlockTag.extend "@since".toList [' '] <$> renderNodes limits body
  | .see reference => BlockTag.extend "@see".toList [' '] <$> renderNodes limits reference
  | .param name isType description =>
    let label := if isType then "@typeparam".toList else "@param".toList
    BlockTag.extend (BlockTag.extend label [' '] name) " - ".toList <$>
      renderNodes limits description
  | .returns description =>
    BlockTag.extend "@return".toList [' '] <$> renderNodes limits description
  | .throws exception description =>
    BlockTag.extend (BlockTag.extend "@throws".toList [' '] exception) " - ".toList <$>
      renderNodes limits description
  | .deprecated body => BlockTag.extend "@deprecated".toList [' '] <$> renderNodes limits body
  | .unknown source => pure source

/-- All tags of a comment, joined by line breaks and cleaned up as one section. -/
def renderTags (limits : Limits) (tags : List BlockTag) : Attended Text := do
  let lines ← tags.mapM (renderTag limits)
  normalize limits (['\n'].intercalate lines)

/-- A comment as Markdown. -/
def renderComment (limits : Limits) (comment : Comment) : Attended Text := do
  let summary ← renderNodes limits comment.summary
  let body ← renderNodes limits comment.body
  let tags ← renderTags limits comment.tags
  pure (Comment.joinSections [summary, body, tags])

/-- Marked-up text as Markdown. -/
def convert (limits : Limits) (reader : Text → Option (List Html)) (text : Text) :
    Attended (Except MarkupError Text) := do
  let resolved ← replace limits .markup text
  let tree := (Markup.parse limits resolved).answeredBy reader
  pure (tree.map fun root => (root.mark MarkRule.standard).serializeChildren)

/-- Any comment text as Markdown. -/
def ofText (limits : Limits) (reader : Text → Option (List Html)) (text : Text) :
    Attended Text := do
  if TagPair.occurs text then
    match ← convert limits reader text with
    | .ok converted => replace limits .text converted
    | .error error =>
      remark (.notConverted error)
      replace limits .text text
  else replace limits .text text

end CommentMarkdown.Attended
