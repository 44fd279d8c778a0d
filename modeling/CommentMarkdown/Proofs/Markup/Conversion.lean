import CommentMarkdown.Markup.Marking

/-!
# Conversion in one pass

Converting a marked tree takes three walks over it: elements are marked from the inside
out, marking flattens what has been marked already, and the result is written out with
its references. All of it can be said in one pass over the tree that was given. What
becomes of a node depends on what lies below it and on nothing else, and there are
two things that it can become: text with marks in it, below an element that has a
rule, and written markup everywhere else (`serializeChildren_mark`).
-/

namespace CommentMarkdown.Markup

/-- Induction over lists of nodes. An element contributes its children and what stands behind
it. -/
@[elab_as_elim]
theorem listInduction {motive : List Markup → Prop} (nil : motive [])
    (text : ∀ content rest, motive rest → motive (.text content :: rest))
    (markdown : ∀ content rest, motive rest → motive (.markdown content :: rest))
    (element : ∀ name attributes children rest, motive children → motive rest →
      motive (.element name attributes children :: rest)) :
    ∀ nodes, motive nodes
  | [] => nil
  | .text content :: rest => text content rest (listInduction nil text markdown element rest)
  | .markdown content :: rest =>
    markdown content rest (listInduction nil text markdown element rest)
  | .element name attributes children :: rest =>
    element name attributes children rest (listInduction nil text markdown element children)
      (listInduction nil text markdown element rest)

mutual

/-- The text below a node. The text of an element that has a rule is trimmed and put between
the marks of the first rule that it has. -/
def markedText (rules : List MarkRule) : Markup → Text
  | text content => content
  | markdown content => content
  | element name _ children =>
    match rules.find? fun rule => rule.tag = name with
    | some rule => rule.opening ++ Text.trim (markedTextAll rules children) ++ rule.closing
    | none => markedTextAll rules children

/-- The text below a list of nodes, in order. -/
def markedTextAll (rules : List MarkRule) : List Markup → Text
  | [] => []
  | node :: rest => markedText rules node ++ markedTextAll rules rest

end

/-- The beginning of an element's tag, up to the bracket that ends it. -/
def beginTag (name : Text) (attributes : List (Text × Text)) : Text :=
  '<' :: name ++ attributes.flatMap fun entry =>
    ' ' :: entry.1 ++ "=\"".toList ++ Text.escapeQuoted entry.2 ++ ['"']

mutual

/-- What becomes of a node. Text is escaped and Markdown stays. An element that has a rule
becomes its text between marks; any other one is written around what becomes of its children,
as a single tag if it has none. -/
def converted (rules : List MarkRule) : Markup → Text
  | text content => Text.escape content
  | markdown content => content
  | element name attributes children =>
    match rules.find? fun rule => rule.tag = name with
    | some rule => rule.opening ++ Text.trim (markedTextAll rules children) ++ rule.closing
    | none =>
      if children.isEmpty then beginTag name attributes ++ "/>".toList
      else
        beginTag name attributes ++ ['>'] ++ convertedAll rules children ++
          "</".toList ++ name ++ ['>']

/-- What becomes of a list of nodes, in order. -/
def convertedAll (rules : List MarkRule) : List Markup → Text
  | [] => []
  | node :: rest => converted rules node ++ convertedAll rules rest

end

/-- What becomes of a list of nodes is what becomes of each of them in turn. -/
theorem convertedAll_eq_flatMap (rules : List MarkRule) (nodes : List Markup) :
    convertedAll rules nodes = nodes.flatMap (converted rules) := by
  induction nodes with
  | nil => rfl
  | cons node rest ih => rw [convertedAll, ih, List.flatMap_cons]

/-- The written form of an element is its tag, what it holds and its end tag. -/
theorem writeElement_eq (name : Text) (attributes : List (Text × Text)) (empty : Bool)
    (inner : Text) :
    writeElement name attributes empty inner =
      if empty then beginTag name attributes ++ "/>".toList
      else beginTag name attributes ++ ['>'] ++ inner ++ "</".toList ++ name ++ ['>'] := by
  have written (entry : Text × Text) : writeAttribute entry =
      ' ' :: entry.1 ++ "=\"".toList ++ Text.escapeQuoted entry.2 ++ ['"'] := by
    simp [writeAttribute]
  have tag : beginTag name attributes = '<' :: name ++ attributes.flatMap writeAttribute := by
    rw [beginTag, funext written]
  unfold writeElement
  rw [tag]
  cases empty <;> simp

/-- A marked list has the text of the original one, with the marks in it. The text below a marked
element is that of its children after marking, so the induction speaks of lists. -/
theorem textContentAll_markList (rules : List MarkRule) (nodes : List Markup) :
    textContentAll (markList rules nodes) = markedTextAll rules nodes := by
  induction nodes using listInduction with
  | nil => rfl
  | text content rest behind => rw [markList, textContentAll, markedTextAll, behind]; rfl
  | markdown content rest behind => rw [markList, textContentAll, markedTextAll, behind]; rfl
  | element name attributes children rest inside behind =>
    rw [markList, textContentAll, markedTextAll, behind, markNode, markedText, MarkRule.find?]
    cases rules.find? fun rule => rule.tag = name with
    | some rule => simp only [textContent, MarkRule.enclose, inside]
    | none => simp only [textContent, inside]

/-- A marked list is written as what becomes of the original one. Below an element that has a rule
marking leaves text only; every other element keeps as many children as it had. -/
theorem serializeAll_markList (rules : List MarkRule) (nodes : List Markup) :
    serializeAll (markList rules nodes) = convertedAll rules nodes := by
  induction nodes using listInduction with
  | nil => rfl
  | text content rest behind => rw [markList, serializeAll, convertedAll, behind]; rfl
  | markdown content rest behind => rw [markList, serializeAll, convertedAll, behind]; rfl
  | element name attributes children rest inside behind =>
    have sameEmpty : (markList rules children).isEmpty = children.isEmpty := by
      rw [markList_eq_map, List.isEmpty_map]
    rw [markList, serializeAll, convertedAll, behind, markNode, converted, MarkRule.find?]
    cases rules.find? fun rule => rule.tag = name with
    | some rule => simp only [serialize, MarkRule.enclose, textContentAll_markList]
    | none => simp only [serialize, sameEmpty, writeElement_eq, inside]

/-- Marking a tree and writing out what it holds is one pass over its root's children. -/
theorem serializeChildren_mark (rules : List MarkRule) (name : Text)
    (attributes : List (Text × Text)) (nodes : List Markup) :
    ((element name attributes nodes).mark rules).serializeChildren =
      nodes.flatMap (converted rules) := by
  rw [mark, serializeChildren, children, serializeAll_markList, convertedAll_eq_flatMap]

end CommentMarkdown.Markup
