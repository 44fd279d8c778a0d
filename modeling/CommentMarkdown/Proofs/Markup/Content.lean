import CommentMarkdown.Proofs.Markup.Conversion
import CommentMarkdown.Proofs.Markup.Outline
import CommentMarkdown.Proofs.Text.Tidiness

/-!
# Marking keeps all content

The text below a marked element is flattened, trimmed and put between marks, and the same happens
once more to the result if the element lies in another one that has a rule. Whatever is trimmed in
between is white space. So apart from white space, marking puts marks into the text of a tree and
does nothing else to it: not a character that can be seen is lost, doubled or moved.

That is said against a text in which nothing is trimmed (`framedTextAll`). It is the text of the
tree in document order with the marks in it, by its definition and by two laws: the text without
marks is a part of it in order (`textContentAll_sublist`), and it has as many characters of each
kind as that text and the marks have together (`count_framedTextAll`).
-/

namespace CommentMarkdown.Markup

mutual

/-- The text below a node, with the marks of the first rule for an element around the text that the
element holds. -/
def framedText (rules : List MarkRule) : Markup → Text
  | text content => content
  | markdown content => content
  | element name _ children =>
    match rules.find? fun rule => rule.tag = name with
    | some rule => rule.opening ++ framedTextAll rules children ++ rule.closing
    | none => framedTextAll rules children

/-- The text below a list of nodes with marks, in document order. -/
def framedTextAll (rules : List MarkRule) : List Markup → Text
  | [] => []
  | node :: rest => framedText rules node ++ framedTextAll rules rest

end

/-- The marks of the first rule for a node, if it is an element that has one. -/
def ownMarks (rules : List MarkRule) : Markup → Text
  | element name _ _ =>
    match rules.find? fun rule => rule.tag = name with
    | some rule => rule.opening ++ rule.closing
    | none => []
  | _ => []

/-- The marks of all nodes at certain places, in order. -/
def marksAt (rules : List MarkRule) (places : List (Placed Markup)) : Text :=
  places.flatMap fun place => ownMarks rules place.node

/-- Trimming in between takes away nothing that can be seen. -/
theorem visible_markedTextAll (rules : List MarkRule) (nodes : List Markup) :
    Text.visible (markedTextAll rules nodes) = Text.visible (framedTextAll rules nodes) := by
  induction nodes using listInduction with
  | nil => rfl
  | text content rest behind =>
    rw [markedTextAll, framedTextAll, Text.visible_append, Text.visible_append, behind]
    rfl
  | markdown content rest behind =>
    rw [markedTextAll, framedTextAll, Text.visible_append, Text.visible_append, behind]
    rfl
  | element name attributes children rest inside behind =>
    rw [markedTextAll, framedTextAll, Text.visible_append, Text.visible_append, behind,
      markedText, framedText]
    cases rules.find? fun rule => rule.tag = name with
    | some rule => simp only [Text.visible_append, Text.visible_trim, inside]
    | none => simp only [inside]

/-- The text of a tree is a part of what it is with marks, in the same order. -/
theorem textContentAll_sublist (rules : List MarkRule) (nodes : List Markup) :
    (textContentAll nodes).Sublist (framedTextAll rules nodes) := by
  induction nodes using listInduction with
  | nil => exact .refl []
  | text content rest behind => exact behind.append_left content
  | markdown content rest behind => exact behind.append_left content
  | element name attributes children rest inside behind =>
    rw [textContentAll, framedTextAll, textContent, framedText]
    refine List.Sublist.append ?_ behind
    cases rules.find? fun rule => rule.tag = name with
    | some rule =>
      have framed : (framedTextAll rules children).Sublist
          (rule.opening ++ framedTextAll rules children ++ rule.closing) :=
        (List.sublist_append_right _ _).trans (List.sublist_append_left _ _)
      exact inside.trans framed
    | none => exact inside

/-- The text of a tree with marks has each character as often as the text and the marks have it
together. -/
theorem count_framedTextAll (rules : List MarkRule) (around : List Text) (nodes : List Markup)
    (c : Char) :
    (framedTextAll rules nodes).count c =
      (textContentAll nodes).count c + (marksAt rules (placedIn around nodes)).count c := by
  -- The names around a place add nothing to its marks, but they grow on the way down.
  induction nodes using listInduction generalizing around with
  | nil => rfl
  | text content rest behind =>
    have places : marksAt rules (placedIn around (text content :: rest)) =
        marksAt rules (placedIn around rest) := rfl
    rw [framedTextAll, textContentAll, framedText, textContent, List.count_append,
      List.count_append, behind around, places, Nat.add_assoc]
  | markdown content rest behind =>
    have places : marksAt rules (placedIn around (markdown content :: rest)) =
        marksAt rules (placedIn around rest) := rfl
    rw [framedTextAll, textContentAll, framedText, textContent, List.count_append,
      List.count_append, behind around, places, Nat.add_assoc]
  | element name attributes children rest inside behind =>
    have places : marksAt rules (placedIn around (element name attributes children :: rest)) =
        ownMarks rules (element name attributes children) ++
          marksAt rules (placedIn (name :: around) children) ++
          marksAt rules (placedIn around rest) := by
      rw [placedIn, placed, marksAt, List.flatMap_append, List.flatMap_cons]
      rfl
    rw [framedTextAll, textContentAll, framedText, textContent, places, ownMarks]
    have here := inside (name :: around)
    have later := behind around
    cases rules.find? fun rule => rule.tag = name with
    | some rule =>
      simp only [List.count_append]
      omega
    | none =>
      simp only [List.count_append, List.count_nil]
      omega

/-- Marking keeps all content. Apart from white space, the text of a marked tree is the text of the
tree in document order, with the marks of its rule around what each element below the root holds
that has one. So the text of the tree is a part of it in its order, and nothing else is but the
marks. -/
theorem mark_keeps_content (rules : List MarkRule) (name : Text) (attributes : List (Text × Text))
    (nodes : List Markup) :
    let root := element name attributes nodes
    let shown := Text.visible (root.mark rules).textContent
    shown = Text.visible (framedTextAll rules nodes) ∧
      (Text.visible root.textContent).Sublist shown ∧
      shown.Perm (Text.visible root.textContent ++
        Text.visible (marksAt rules (placedIn [name] nodes))) := by
  intro root shown
  have framed : shown = Text.visible (framedTextAll rules nodes) := by
    rw [← visible_markedTextAll, ← textContentAll_markList]
    rfl
  have counted : (framedTextAll rules nodes).Perm
      (root.textContent ++ marksAt rules (placedIn [name] nodes)) := by
    rw [List.perm_iff_count]
    intro c
    rw [List.count_append]
    exact count_framedTextAll rules [name] nodes c
  refine ⟨framed, ?_, ?_⟩
  · rw [framed]
    exact (textContentAll_sublist rules nodes).filter _
  · rw [framed, ← Text.visible_append]
    exact counted.filter _

/-- Each marked element is trimmed for itself, and white space is all that is lost by it. -/
example :
    let inner := element "i".toList [] [text " x ".toList]
    let root := element "p".toList [] [element "b".toList [] [text " a".toList, inner]]
    (root.mark MarkRule.standard).textContent = "**a*x***".toList ∧
      framedTextAll MarkRule.standard root.children = "** a* x ***".toList :=
  ⟨rfl, rfl⟩

end CommentMarkdown.Markup
