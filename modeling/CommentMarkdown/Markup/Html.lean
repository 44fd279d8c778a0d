import CommentMarkdown.Directive.Basic
import CommentMarkdown.Entity
import CommentMarkdown.Error
import CommentMarkdown.Limits
import CommentMarkdown.Markup.Basic

/-!
# HTML trees

Reading HTML is not the business of this library: a reader is given a text and
answers with the top of a document, or with nothing. The text is wrapped in a root
element of its own first, because a lenient reader is free to add elements
around what it was given.

From the document a markup tree is made in two steps. The root is searched for,
in document order. Then what is below it is copied: names in small letters,
references decoded, adjacent pieces of text joined into one, comments and
instructions left out, and a shielded element turned back into the Markdown that
was put into it. Neither step goes deeper than the limit; the search just does
not look there, but a copy that would have to is refused.
-/

namespace CommentMarkdown

/-- A node of a document as an HTML reader hands it over. -/
inductive Html
  /-- An element; an attribute may have no value. -/
  | element (name : Text) (attributes : List (Text × Option Text)) (children : List Html)
  | text (content : Text)
  | cdata (content : Text)
  /-- A reference that the reader left as it was. -/
  | reference (name : Text)
  | comment (content : Text)
  | instruction (content : Text)
  deriving Repr, Inhabited

namespace Html

/-- The element that is put around a text before it is read. -/
def rootName : Text := "docmd-root".toList

/-- A text inside the root element. -/
def wrap (text : Text) : Text :=
  '<' :: rootName ++ '>' :: text ++ '<' :: '/' :: rootName ++ ['>']

/-- The greatest size in bytes that a reader takes: the greatest signed number of 32 bits. -/
def greatestSize : Nat := 2147483647

mutual

/-- What the first root element at a node or below holds, if it lies no deeper than the limit.
The node itself is at the given depth. -/
def rootContent? (limit depth : Nat) : Html → Option (List Html)
  | element name _ children =>
    if name = rootName then some children else rootContentIn? limit (depth + 1) children
  | _ => none

/-- The same for the nodes of a list, which are all at the given depth. -/
def rootContentIn? (limit depth : Nat) : List Html → Option (List Html)
  | [] => none
  | node :: rest =>
    if limit < depth then none
    else (rootContent? limit depth node).or (rootContentIn? limit depth rest)

end

mutual

/-- The characters of a node and below, without references. -/
def characters : Html → Text
  | element _ _ children => charactersIn children
  | text content => content
  | cdata content => content
  | _ => []

/-- The characters of the nodes of a list. -/
def charactersIn : List Html → Text
  | [] => []
  | node :: rest => characters node ++ charactersIn rest

end

/-- An element's attributes as markup has them: each with the value of the first attribute
of its name, and nothing for a missing value. -/
def markupAttributes (attributes : List (Text × Option Text)) : List (Text × Text) :=
  attributes.map fun entry => (entry.1, (attributes.lookup entry.1).join.getD [])

/-- Puts text in front of markup, joined with text that stands there already. -/
def consText (content : Text) : List Markup → List Markup
  | .text following :: rest => .text (content ++ following) :: rest
  | nodes => .text content :: nodes

mutual

/-- Puts the copy of a node at the given depth in front of what follows it. -/
def consMarkup (limit depth : Nat) (following : List Markup) : Html → Except MarkupError (List Markup)
  | element name attributes children =>
    if limit < depth then .error (.tooDeep limit)
    else if Text.lower name = Directive.shieldName then
      .ok (.markdown (charactersIn children) :: following)
    else do
      let inner ← toMarkup limit (depth + 1) children
      pure (.element (Text.lower name) (markupAttributes attributes) inner :: following)
  | text content => .ok (consText content following)
  | cdata content => .ok (consText content following)
  | reference name => .ok (consText (Entity.decode name) following)
  | comment _ => .ok following
  | instruction _ => .ok following

/-- The nodes of a list, all at the given depth, as markup. -/
def toMarkup (limit depth : Nat) : List Html → Except MarkupError (List Markup)
  | [] => .ok []
  | node :: rest => do
    let following ← toMarkup limit depth rest
    consMarkup limit depth following node

end

/-- The markup tree of a document: a root element with the copy of what the document's
root holds. -/
def document (limits : Limits) : Option (List Html) → Except MarkupError Markup
  | none => .error .noDocument
  | some nodes =>
    match rootContentIn? limits.markupDepth 0 nodes with
    | none => .error .noRoot
    | some content => (.element rootName [] ·) <$> toMarkup limits.markupDepth 1 content

end Html

end CommentMarkdown
