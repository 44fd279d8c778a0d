import CommentMarkdown.Markup.Html

/-!
# Trees in document order

A tree says by nesting where its nodes stand. The same can be said by a list: all nodes in
document order, each with the names of the elements around it, innermost first. The number of
these names is the depth of the node. Order and depth say all that nesting says, since a node
stands in the last node in front of it that lies one level above.

Documents and markup are listed alike, so that what is found in one can be compared with what
is found in the other, place by place. Neither list knows of limits, of names with a
meaning, or of text that belongs together.
-/

namespace CommentMarkdown

/-- What stands at a place of a tree, with the names of the elements around it, innermost
first. -/
structure Placed (α : Type) where
  around : List Text
  node : α

/-- The number of elements around a place. -/
def Placed.depth {α : Type} (placed : Placed α) : Nat :=
  placed.around.length

namespace Html

/-- The name of an element; other nodes have none. -/
def name? : Html → Option Text
  | element name _ _ => some name
  | _ => none

/-- What an element holds; other nodes hold nothing. -/
def children : Html → List Html
  | element _ _ children => children
  | _ => []

mutual

/-- A node and all below it, in document order. -/
def placed (around : List Text) : Html → List (Placed Html)
  | element name attributes children =>
    ⟨around, element name attributes children⟩ :: placedIn (name :: around) children
  | node => [⟨around, node⟩]

/-- The nodes of a list and all below them, in document order. -/
def placedIn (around : List Text) : List Html → List (Placed Html)
  | [] => []
  | node :: rest => placed around node ++ placedIn around rest

end

/-- Induction over lists of nodes. An element contributes what it holds and what stands behind
it; any other node has nothing below it. -/
@[elab_as_elim]
theorem listInduction {motive : List Html → Prop} (nil : motive [])
    (element : ∀ name attributes children rest, motive children → motive rest →
      motive (.element name attributes children :: rest))
    (leaf : ∀ node rest, node.name? = none → motive rest → motive (node :: rest)) :
    ∀ nodes, motive nodes
  | [] => nil
  | .element name attributes children :: rest =>
    element name attributes children rest (listInduction nil element leaf children)
      (listInduction nil element leaf rest)
  | .text content :: rest => leaf (.text content) rest rfl (listInduction nil element leaf rest)
  | .cdata content :: rest => leaf (.cdata content) rest rfl (listInduction nil element leaf rest)
  | .reference name :: rest =>
    leaf (.reference name) rest rfl (listInduction nil element leaf rest)
  | .comment content :: rest =>
    leaf (.comment content) rest rfl (listInduction nil element leaf rest)
  | .instruction content :: rest =>
    leaf (.instruction content) rest rfl (listInduction nil element leaf rest)

/-- A node that is no element stands at its place alone. -/
theorem placed_of_leaf {node : Html} (leaf : node.name? = none) (around : List Text) :
    placed around node = [⟨around, node⟩] := by
  cases node with
  | element name attributes children => cases leaf
  | _ => rfl

/-- A place among nodes with an element in front is that of the element, below it or behind it. -/
theorem mem_placedIn_element {place : Placed Html} {around : List Text} {name : Text}
    {attributes : List (Text × Option Text)} {children rest : List Html} :
    place ∈ placedIn around (element name attributes children :: rest) ↔
      place = ⟨around, element name attributes children⟩ ∨
        place ∈ placedIn (name :: around) children ∨ place ∈ placedIn around rest := by
  rw [placedIn, placed, List.cons_append, List.mem_cons, List.mem_append]

/-- A place among nodes with another node in front is that of the node or behind it. -/
theorem mem_placedIn_leaf {place : Placed Html} {around : List Text} {node : Html}
    {rest : List Html} (leaf : node.name? = none) :
    place ∈ placedIn around (node :: rest) ↔
      place = ⟨around, node⟩ ∨ place ∈ placedIn around rest := by
  rw [placedIn, placed_of_leaf leaf, List.singleton_append, List.mem_cons]

/-- Whatever stands below a list of nodes has the elements around it that the list has. -/
theorem around_suffix_of_mem (nodes : List Html) (around : List Text) {place : Placed Html}
    (member : place ∈ placedIn around nodes) : around <:+ place.around := by
  induction nodes using listInduction generalizing around with
  | nil => cases member
  | element name attributes children rest inside behind =>
    rcases mem_placedIn_element.mp member with rfl | below | later
    · exact List.suffix_rfl
    · exact (List.suffix_cons name around).trans (inside _ below)
    · exact behind around later
  | leaf node rest leaf behind =>
    rcases (mem_placedIn_leaf leaf).mp member with rfl | later
    · exact List.suffix_rfl
    · exact behind around later

end Html

namespace Markup

/-- The name of an element; other nodes have none. -/
def name? : Markup → Option Text
  | element name _ _ => some name
  | _ => none

/-- Whether a node is running text. -/
def isText : Markup → Bool
  | text _ => true
  | _ => false

mutual

/-- A node and all below it, in document order. -/
def placed (around : List Text) : Markup → List (Placed Markup)
  | element name attributes children =>
    ⟨around, element name attributes children⟩ :: placedIn (name :: around) children
  | node => [⟨around, node⟩]

/-- The nodes of a list and all below them, in document order. -/
def placedIn (around : List Text) : List Markup → List (Placed Markup)
  | [] => []
  | node :: rest => placed around node ++ placedIn around rest

end

end Markup

end CommentMarkdown
