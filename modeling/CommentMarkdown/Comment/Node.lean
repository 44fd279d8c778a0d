import CommentMarkdown.Entity
import CommentMarkdown.Markdown.Mark
import CommentMarkdown.Markdown.Normal

/-!
# Comment nodes

The prose of a comment arrives as a sequence of nodes in which elements are not
nested: a start mark and an end mark are nodes of their own, and nothing
promises that they match. Link labels and inline references nest, since each
holds a sequence of its own.

Rendering goes along a sequence with the names of the elements that are open,
most recent first. They matter for one thing only: inside code the white space
of prose is kept. A sequence that is nested below the limit is left out.
-/

namespace CommentMarkdown

/-- A piece of a comment's prose. -/
inductive Node
  /-- Prose. -/
  | text (body : Text)
  /-- Text to be shown as code. -/
  | literal (body : Text)
  /-- A link with its label, which may be empty, and what it refers to. -/
  | link (label : List Node) (reference : Text)
  /-- A reference shown as its own text. -/
  | see (reference : List Node)
  /-- The start of an element. -/
  | start (name : Text)
  /-- The end of an element. -/
  | finish (name : Text)
  /-- A named character reference. -/
  | entity (name : Text)
  /-- Text that made no sense. -/
  | erroneous (body : Text)
  /-- A tag or element that was not recognised. -/
  | unknownTag (source : Text)
  deriving Repr, Inhabited

namespace Node

/-- The name of a node's kind in remarks. -/
def kindName : Node → Text
  | text .. => "text".toList
  | literal .. => "literal".toList
  | link .. => "link".toList
  | see .. => "see".toList
  | start .. => "start_element".toList
  | finish .. => "end_element".toList
  | entity .. => "entity".toList
  | erroneous .. => "erroneous".toList
  | unknownTag .. => "unknown_tag".toList

/-- The elements that are open behind a node. An end closes the most recent element of its
name, and nothing if there is none. -/
def openBehind (opened : List Text) : Node → List Text
  | start name => Text.lower name :: opened
  | finish name => opened.erase (Text.lower name)
  | _ => opened

/-- Whether prose keeps its white space between these open elements. -/
def insideCode (opened : List Text) : Bool :=
  opened.any fun name => name == "code".toList || name == "pre".toList

/-- What a link shows: its label, or else its reference as code, or else nothing. -/
def linkText (label reference : Text) : Text :=
  if !Text.isBlank label then label
  else if !Text.isBlank reference then Markdown.codeSpan reference
  else []

/-- A sequence at a depth, cleaned up, or nothing if it lies below the limit. -/
@[macro_inline]
def sectionAt (limits : Limits) (depth : Nat) (content : Diagnosed Text) : Diagnosed Text :=
  if limits.markupDepth < depth then do
    Diagnosed.report (.droppedReference limits.markupDepth)
    pure []
  else content >>= Markdown.normalize limits

mutual

/-- A node at a depth, between the elements that are open in front of it. -/
def render (limits : Limits) (depth : Nat) (opened : List Text) : Node → Diagnosed Text
  | text body => pure (if insideCode opened then body else Text.collapse body)
  | literal body => pure (Markdown.codeSpan body)
  | link label reference => do
    let shown ← sectionAt limits (depth + 1) (renderSequence limits (depth + 1) [] label)
    pure (linkText shown reference)
  | see reference => sectionAt limits (depth + 1) (renderSequence limits (depth + 1) [] reference)
  | start name => pure (Markdown.startMark (Text.lower name))
  | finish name => do
    if Text.lower name ∉ opened then
      Diagnosed.report (.neverOpened (Text.lower name))
    pure (Markdown.endMark (Text.lower name))
  | entity name => pure (Entity.decode name)
  | erroneous body => do
    Diagnosed.report (.copiedAsIs (erroneous body).kindName)
    pure body
  | unknownTag source => do
    Diagnosed.report (.copiedAsIs (unknownTag source).kindName)
    pure source

/-- A sequence of nodes at a depth, before its clean-up. -/
def renderSequence (limits : Limits) (depth : Nat) (opened : List Text) :
    List Node → Diagnosed Text
  | [] => pure []
  | node :: rest => do
    let first ← render limits depth opened node
    let others ← renderSequence limits depth (node.openBehind opened) rest
    pure (first ++ others)

end

/-- A whole sequence as Markdown. -/
def renderAll (limits : Limits) (nodes : List Node) : Diagnosed Text :=
  sectionAt limits 0 (renderSequence limits 0 [] nodes)

end Node

end CommentMarkdown
