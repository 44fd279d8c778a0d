import CommentMarkdown.Text.Escape

/-!
# Markup trees

A markup tree has elements with attributes, running text, and pieces that are
Markdown already. The first two are written with references for the characters
that markup claims for itself; Markdown is written as it is, because it was
made to be read behind the markup.
-/

namespace CommentMarkdown

/-- A node of a markup tree. -/
inductive Markup
  /-- Running text. -/
  | text (content : Text)
  /-- Finished Markdown. -/
  | markdown (content : Text)
  /-- An element with its attributes in order. -/
  | element (name : Text) (attributes : List (Text × Text)) (children : List Markup)
  deriving Repr, Inhabited

namespace Markup

mutual

/-- All text below a node, in order, without the markup. -/
def textContent : Markup → Text
  | text content => content
  | markdown content => content
  | element _ _ children => textContentAll children

/-- All text below a list of nodes. -/
def textContentAll : List Markup → Text
  | [] => []
  | node :: rest => textContent node ++ textContentAll rest

end

/-- An attribute inside a start tag. -/
def writeAttribute (entry : Text × Text) : Text :=
  ' ' :: entry.1 ++ '=' :: '"' :: Text.escapeQuoted entry.2 ++ ['"']

/-- An element around the written form of its children. One without children is written
as a single tag. -/
def writeElement (name : Text) (attributes : List (Text × Text)) (empty : Bool) (inner : Text) :
    Text :=
  '<' :: name ++ attributes.flatMap writeAttribute ++
    if empty then "/>".toList else '>' :: inner ++ '<' :: '/' :: name ++ ['>']

mutual

/-- The written form of a node. -/
def serialize : Markup → Text
  | text content => Text.escape content
  | markdown content => content
  | element name attributes children =>
    writeElement name attributes children.isEmpty (serializeAll children)

/-- The written form of a list of nodes. -/
def serializeAll : List Markup → Text
  | [] => []
  | node :: rest => serialize node ++ serializeAll rest

end

/-- The text of a list of nodes is that of each of them in turn. -/
theorem textContentAll_eq_flatMap (nodes : List Markup) :
    textContentAll nodes = nodes.flatMap textContent := by
  induction nodes with
  | nil => rfl
  | cons node rest ih => simp [textContentAll, ih]

/-- The written form of a list of nodes is that of each of them in turn. -/
theorem serializeAll_eq_flatMap (nodes : List Markup) :
    serializeAll nodes = nodes.flatMap serialize := by
  induction nodes with
  | nil => rfl
  | cons node rest ih => simp [serializeAll, ih]

/-- The children of a node; only an element has any. -/
def children : Markup → List Markup
  | element _ _ children => children
  | _ => []

/-- The written form of what an element holds. -/
def serializeChildren (node : Markup) : Text :=
  serializeAll node.children

end Markup

end CommentMarkdown
