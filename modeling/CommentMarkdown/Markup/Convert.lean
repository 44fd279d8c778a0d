import CommentMarkdown.Directive.Resolve
import CommentMarkdown.Markup.Html
import CommentMarkdown.Markup.Marking
import CommentMarkdown.Markup.TagPair

/-!
# Converting HTML-like text

Text that holds a tag pair is converted through a markup tree: directives are
resolved first, with what they yield shielded from the reader, then the tree is
marked and written out again. If that fails, the text is treated like any
other one. In both cases directives are resolved in the end, so that those that
the conversion did not see are not left standing.

A conversion depends on a reader for a single answer. Such a computation is an
enquiry: either it is settled, or it asks for the document of one text and knows how
to go on with any answer.
-/

namespace CommentMarkdown

/-- A computation that may need one document. -/
inductive Enquiry (α : Type)
  | settled (result : α)
  | asks (source : Text) (proceed : Option (List Html) → α)

namespace Enquiry

variable {α β : Type}

/-- The result once a reader has given its answers. -/
def answeredBy (reader : Text → Option (List Html)) : Enquiry α → α
  | settled result => result
  | asks source proceed => proceed (reader source)

/-- The texts that a reader is given. -/
def sources : Enquiry α → List Text
  | settled _ => []
  | asks source _ => [source]

/-- Goes on with the result. -/
def map (next : α → β) : Enquiry α → Enquiry β
  | settled result => settled (next result)
  | asks source proceed => asks source fun answer => next (proceed answer)

@[simp]
theorem answeredBy_map (reader : Text → Option (List Html)) (next : α → β) (enquiry : Enquiry α) :
    (enquiry.map next).answeredBy reader = next (enquiry.answeredBy reader) := by
  cases enquiry <;> rfl

end Enquiry

namespace Markup

/-- The markup tree of a text. A text that is too long for a reader is handed to none. -/
def parse (limits : Limits) (text : Text) : Enquiry (Except MarkupError Markup) :=
  if Html.greatestSize < Text.byteSize (Html.wrap text) then .settled (.error .tooLarge)
  else .asks (Html.wrap text) (Html.document limits)

/-- Marked-up text as Markdown. -/
def convert (limits : Limits) (text : Text) : Enquiry (Diagnosed (Except MarkupError Text)) :=
  let resolved := Directive.replace limits .markup text
  (parse limits resolved.value).map fun tree =>
    ⟨tree.map fun root => (root.mark MarkRule.standard).serializeChildren, resolved.log⟩

/-- What becomes of a text whose conversion has been tried. -/
def finish (limits : Limits) (text : Text) : Except MarkupError Text → Diagnosed Text
  | .ok converted => Directive.replace limits .text converted
  | .error error => do
    Diagnosed.report (.notConverted error)
    Directive.replace limits .text text

/-- Any comment text as Markdown. -/
def ofText (limits : Limits) (text : Text) : Enquiry (Diagnosed Text) :=
  if TagPair.occurs text then (convert limits text).map (· >>= finish limits text)
  else .settled (Directive.replace limits .text text)

end Markup

end CommentMarkdown
