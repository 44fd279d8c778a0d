import CommentMarkdown.Markup.Convert
import CommentMarkdown.Proofs.Directive.Replacement
import CommentMarkdown.Proofs.Directive.Segments
import CommentMarkdown.Proofs.Markup.Conversion
import Mathlib.Data.List.Forall2

/-!
# Directives behind the HTML reader

Text that is converted through a markup tree has its directives resolved before the reader
sees it. What they yield is escaped once and put into an element of its own. The reader
undoes the escaping, and the copy of its tree takes the content of that element for
finished Markdown, so nothing else is done to it. Everything outside is running text and is
escaped when the tree is written out.

So if the reader takes raw segments for text and shielded ones for the elements that they
stand in, the conversion yields each shielded segment as it was resolved
(`directives_survive_conversion`). No group is left for directives to be resolved in the end:
no segment holds an opening brace.
-/

namespace CommentMarkdown

namespace Directive

/-- What the conversion makes of a segment. -/
def Segment.kept : Segment → Text
  | raw content => Text.escape content
  | shielded content => content

/-- The segments from which both results of resolving a text are put together. -/
structure Segmented (limits : Limits) (text : Text) (segments : List Segment) : Prop where
  markdown : (resolve limits .text text).value = .ok (segments.flatMap Segment.content)
  markup : (resolve limits .markup text).value = .ok (segments.flatMap Segment.marked)

/-- The segments of a tree are those of its text. -/
theorem segmented_segmentsOf {limits : Limits} {text : Text} {items : List Item}
    (reads : Reads limits.directiveDepth text items) :
    Segmented limits text (segmentsOf items) where
  markdown := by
    rw [value_resolve_of_reads reads .text, ← textOf_eq_flatMap_segments]
    rfl
  markup := by
    rw [value_resolve_of_reads reads .markup, ← markupOf_eq_flatMap_segments]
    rfl

/-- Escaping makes no opening brace. -/
theorem opening_not_mem_escape {text : Text} (flat : '{' ∉ text) : '{' ∉ Text.escape text := by
  rwa [← List.count_eq_zero, count_escape (.inl rfl), List.count_eq_zero]

/-- The converted segments of a text hold no opening brace. -/
theorem opening_not_mem_kept {limits : Limits} {text : Text} {segments : List Segment}
    (segmented : Segmented limits text segments) : '{' ∉ segments.flatMap Segment.kept := by
  have flat := opening_not_mem_of_resolve segmented.markdown
  intro member
  obtain ⟨segment, listed, inside⟩ := List.mem_flatMap.mp member
  have flatHere : '{' ∉ segment.content := fun opens =>
    flat (List.mem_flatMap.mpr ⟨segment, listed, opens⟩)
  cases segment with
  | raw content => exact opening_not_mem_escape flatHere inside
  | shielded content => exact flatHere inside

end Directive

namespace Html

open Directive (Segment)

/-- What a reader makes of a segment: text of a raw one, and of a shielded one the element that
it stands in, with its text read back. -/
inductive Stands : Segment → Html → Prop
  | raw (content : Text) : Stands (.raw content) (.text content)
  | shielded (content : Text) (attributes : List (Text × Option Text)) :
    Stands (.shielded content) (.element Directive.shieldName attributes [.text content])

/-- Whether a node is an element. -/
def isElement : Html → Bool
  | element .. => true
  | _ => false

/-- A document whose first element is the root, with one node for each segment in it. -/
def Presents (segments : List Segment) (document : List Html) : Prop :=
  ∃ before attributes content after,
    document = before ++ element rootName attributes content :: after ∧
      (∀ node ∈ before, node.isElement = false) ∧ List.Forall₂ Stands segments content

/-- A root at the top of a document is found whatever the limit, if no element stands before it. -/
theorem rootContentIn?_append (limit : Nat) (before : List Html)
    (attributes : List (Text × Option Text)) (content after : List Html)
    (plain : ∀ node ∈ before, node.isElement = false) :
    rootContentIn? limit 0 (before ++ element rootName attributes content :: after) =
      some content := by
  induction before with
  | nil => simp [rootContentIn?, rootContent?]
  | cons node rest ih =>
    obtain ⟨plainHere, plainRest⟩ := List.forall_mem_cons.mp plain
    rw [List.cons_append, rootContentIn?, if_neg (Nat.not_lt_zero limit), ih plainRest]
    cases node with
    | element name attributes children => cases plainHere
    | _ => rfl

end Html

namespace Markup

open Directive (Segment Segmented)

/-- Text that is joined with what follows it is written as if it stood alone. -/
theorem convertedAll_consText (rules : List MarkRule) (content : Text) (nodes : List Markup) :
    convertedAll rules (Html.consText content nodes) =
      Text.escape content ++ convertedAll rules nodes := by
  unfold Html.consText
  split
  next following rest => simp [convertedAll, converted]
  next => rfl

/-- The nodes that stand for segments can be copied below a root, and the copy is converted to
what the conversion makes of the segments. Only the elements of shielded segments are reached,
and their content is not copied but taken as it is. -/
theorem convertedAll_of_stands (rules : List MarkRule) {limit : Nat} (deep : 1 ≤ limit)
    {segments : List Segment} {nodes : List Html}
    (standing : List.Forall₂ Html.Stands segments nodes) :
    ∃ copy, Html.toMarkup limit 1 nodes = .ok copy ∧
      convertedAll rules copy = segments.flatMap Segment.kept := by
  induction standing with
  | nil => exact ⟨[], rfl, rfl⟩
  | cons stands _ ih =>
    obtain ⟨copy, copied, written⟩ := ih
    rw [Html.toMarkup, copied, List.flatMap_cons, ← written]
    cases stands with
    | raw content => exact ⟨Html.consText content copy, rfl, convertedAll_consText _ _ _⟩
    | shielded content attributes =>
      have shallow : ¬ limit < 1 := Nat.not_lt.mpr deep
      have named : Text.lower Directive.shieldName = Directive.shieldName := by decide
      refine ⟨.markdown content :: copy, ?_, rfl⟩
      change Html.consMarkup limit 1 copy _ = _
      rw [Html.consMarkup, if_neg shallow, if_pos named]
      simp [Html.charactersIn, Html.characters]

/-- A document that presents segments is converted to what becomes of the segments. -/
theorem convert_document {limits : Limits} (deep : 1 ≤ limits.markupDepth)
    {segments : List Segment} {answer : List Html} (presents : Html.Presents segments answer) :
    (Html.document limits (some answer)).map
        (fun root => (root.mark MarkRule.standard).serializeChildren) =
      .ok (segments.flatMap Segment.kept) := by
  obtain ⟨before, attributes, content, after, rfl, plain, standing⟩ := presents
  obtain ⟨copy, copied, written⟩ := convertedAll_of_stands MarkRule.standard deep standing
  simp only [Html.document, Html.rootContentIn?_append _ _ _ _ _ plain, copied]
  change Except.ok (serializeAll (markList MarkRule.standard copy)) = _
  rw [serializeAll_markList, written]

/-- A text is handed to a reader with its directives resolved for markup and inside the root
element, unless that is too long for a reader. -/
theorem mem_sources_convert_iff {limits : Limits} {text : Text} {segments : List Segment}
    (segmented : Segmented limits text segments) (source : Text) :
    source ∈ (convert limits text).sources ↔
      source = Html.wrap (segments.flatMap Segment.marked) ∧
        Text.byteSize source ≤ Html.greatestSize := by
  have resolved := Directive.value_replace_of_ok segmented.markup
  unfold convert parse
  simp only [resolved]
  split
  next tooLarge =>
    simp only [Enquiry.map, Enquiry.sources, List.not_mem_nil, false_iff]
    rintro ⟨rfl, fits⟩
    exact Nat.not_lt.mpr fits tooLarge
  next fits =>
    simp only [Enquiry.map, Enquiry.sources, List.mem_singleton]
    constructor
    · rintro rfl
      exact ⟨rfl, Nat.not_lt.mp fits⟩
    · exact And.left

/-- A reader that presents the segments of the text handed to it has it converted to what
becomes of the segments. -/
theorem value_convert_of_presents {limits : Limits} (deep : 1 ≤ limits.markupDepth) {text : Text}
    {segments : List Segment} (segmented : Segmented limits text segments)
    {reader : Text → Option (List Html)} {answer : List Html} {source : Text}
    (handed : source ∈ (convert limits text).sources) (answers : reader source = some answer)
    (presents : Html.Presents segments answer) :
    ((convert limits text).answeredBy reader).value = .ok (segments.flatMap Segment.kept) := by
  obtain ⟨rfl, fits⟩ := (mem_sources_convert_iff segmented source).mp handed
  have resolved := Directive.value_replace_of_ok segmented.markup
  rw [convert, Enquiry.answeredBy_map, resolved, parse, if_neg (Nat.not_lt.mpr fits),
    Enquiry.answeredBy, answers]
  exact convert_document deep presents

/-- What directives yield survives the conversion of the text around them. A text that can be
resolved has segments, one shielded segment for each outermost recognised directive. Whichever
segments both results are put together from, what the reader is given is the result for
markup in the root element. If it answers with a document that presents the segments, the text
is converted to its raw segments, escaped, and its shielded ones, as they were resolved.
Resolving directives once more, as is done for any text, changes nothing in that. -/
theorem directives_survive_conversion (limits : Limits) (text shown : Text)
    (deep : 1 ≤ limits.markupDepth)
    (resolves : (Directive.resolve limits .text text).value = .ok shown) :
    (∃ items, Directive.Reads limits.directiveDepth text items ∧
        Segmented limits text (Directive.segmentsOf items) ∧
        (Directive.segmentsOf items).filterMap Segment.shielded? =
          (Directive.outermostOf items).map Directive.Item.text) ∧
      ∀ segments, Segmented limits text segments →
        (∀ source, source ∈ (convert limits text).sources ↔
          source = Html.wrap (segments.flatMap Segment.marked) ∧
            Text.byteSize source ≤ Html.greatestSize) ∧
        ∀ reader answer,
          (∃ source ∈ (convert limits text).sources, reader source = some answer) →
          Html.Presents segments answer →
            ((convert limits text).answeredBy reader).value = .ok (segments.flatMap Segment.kept) ∧
              (TagPair.occurs text = true →
                ((ofText limits text).answeredBy reader).value = segments.flatMap Segment.kept) := by
  refine ⟨?_, fun segments segmented => ⟨mem_sources_convert_iff segmented, ?_⟩⟩
  · obtain ⟨items, reads, _⟩ := Directive.exists_reads_of_resolve resolves
    exact ⟨items, reads, Directive.segmented_segmentsOf reads,
      Directive.shielded_segmentsOf items⟩
  · rintro reader answer ⟨source, handed, answers⟩ presents
    have converted := value_convert_of_presents deep segmented handed answers presents
    refine ⟨converted, fun pair => ?_⟩
    have settled := Directive.replace_of_no_opening limits .text
      (Directive.opening_not_mem_kept segmented)
    rw [ofText, if_pos pair, Enquiry.answeredBy_map, Diagnosed.value_bind, converted, finish,
      settled]
    rfl

/-- Prose with an angle bracket in it, and a tag pair that is code. -/
def pairInCode : Text := "p > q {@code <T></T>}".toList

/-- The prose in front of the code, and the code. -/
def pairInCodeSegments : List Segment :=
  [.raw "p > q ".toList, .shielded "\x60<T></T>\x60".toList]

/-- A document with a text and an element that holds the code. -/
def pairInCodeDocument : List Html :=
  [.element Html.rootName [] [.text "p > q ".toList,
    .element "docmd-md".toList [] [.text "\x60<T></T>\x60".toList]]]

/-- A reader of one text. -/
def pairInCodeReader (source : Text) : Option (List Html) :=
  if source = Html.wrap "p > q <docmd-md>\x60&lt;T&gt;&lt;/T&gt;\x60</docmd-md>".toList then
    some pairInCodeDocument
  else none

/-- A tag pair that is code survives, although it is what makes the text be read as HTML. -/
theorem pairInCode_survives :
    TagPair.occurs pairInCode = true ∧ Segmented {} pairInCode pairInCodeSegments ∧
      (∃ source ∈ (convert {} pairInCode).sources,
        pairInCodeReader source = some pairInCodeDocument) ∧
      Html.Presents pairInCodeSegments pairInCodeDocument ∧
      ((convert {} pairInCode).answeredBy pairInCodeReader).value =
        .ok "p &gt; q \x60<T></T>\x60".toList ∧
      ((ofText {} pairInCode).answeredBy pairInCodeReader).value =
        "p &gt; q \x60<T></T>\x60".toList := by
  have pair : TagPair.occurs pairInCode = true := by decide +kernel
  have segmented : Segmented {} pairInCode pairInCodeSegments :=
    ⟨by decide +kernel, by decide +kernel⟩
  have presents : Html.Presents pairInCodeSegments pairInCodeDocument :=
    ⟨[], [], _, [], rfl, nofun, .cons (.raw _) (.cons (.shielded _ []) .nil)⟩
  have kept : pairInCodeSegments.flatMap Segment.kept = "p &gt; q \x60<T></T>\x60".toList := by
    decide +kernel
  have deep : 1 ≤ ({} : Limits).markupDepth := by decide
  obtain ⟨_, survives⟩ := directives_survive_conversion {} pairInCode _ deep segmented.markdown
  obtain ⟨sources, answered⟩ := survives pairInCodeSegments segmented
  have handed : Html.wrap (pairInCodeSegments.flatMap Segment.marked) ∈
      (convert {} pairInCode).sources := (sources _).mpr ⟨rfl, by decide +kernel⟩
  have answers : pairInCodeReader (Html.wrap (pairInCodeSegments.flatMap Segment.marked)) =
      some pairInCodeDocument := if_pos (by decide +kernel)
  obtain ⟨converted, shown⟩ := answered pairInCodeReader pairInCodeDocument
    ⟨_, handed, answers⟩ presents
  rw [← kept]
  exact ⟨pair, segmented, ⟨_, handed, answers⟩, presents, converted, shown pair⟩

end Markup

end CommentMarkdown
