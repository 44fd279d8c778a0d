import CommentMarkdown.Markup.Basic

/-!
# Marking elements

A rule names an element and the marks that stand around its text in Markdown.
Marking a tree puts one piece of Markdown in the place of every element that a
rule names, innermost first: the marks around all text below the element, with
white space at its two ends removed. The root stays, since it stands for the whole
text.
-/

namespace CommentMarkdown

/-- The marks for the elements of one name. -/
structure MarkRule where
  tag : Text
  opening : Text
  closing : Text
  deriving DecidableEq, Repr

namespace MarkRule

/-- The first rule for a name. -/
def find? (rules : List MarkRule) (name : Text) : Option MarkRule :=
  rules.find? fun rule => rule.tag = name

/-- Text between the marks of a rule. -/
def enclose (rule : MarkRule) (content : Text) : Text :=
  rule.opening ++ Text.trim content ++ rule.closing

/-- The elements that Markdown has marks for, and links, which lose theirs. -/
def standard : List MarkRule :=
  [⟨"i".toList, "*".toList, "*".toList⟩,
   ⟨"b".toList, "**".toList, "**".toList⟩,
   ⟨"pre".toList, "\x60".toList, "\x60".toList⟩,
   ⟨"code".toList, "\x60".toList, "\x60".toList⟩,
   ⟨"a".toList, [], []⟩]

end MarkRule

namespace Markup

mutual

/-- A node below the root with its elements marked. -/
def markNode (rules : List MarkRule) : Markup → Markup
  | text content => text content
  | markdown content => markdown content
  | element name attributes children =>
    let inner := markList rules children
    match MarkRule.find? rules name with
    | some rule => markdown (rule.enclose (textContentAll inner))
    | none => element name attributes inner

/-- The nodes of a list with their elements marked. -/
def markList (rules : List MarkRule) : List Markup → List Markup
  | [] => []
  | node :: rest => markNode rules node :: markList rules rest

end

/-- The nodes of a list are marked each on its own. -/
theorem markList_eq_map (rules : List MarkRule) (nodes : List Markup) :
    markList rules nodes = nodes.map (markNode rules) := by
  induction nodes with
  | nil => rfl
  | cons node rest ih => simp [markList, ih]

/-- A tree with all elements below its root marked. -/
def mark (rules : List MarkRule) : Markup → Markup
  | element name attributes children => element name attributes (markList rules children)
  | node => node

end Markup

end CommentMarkdown
