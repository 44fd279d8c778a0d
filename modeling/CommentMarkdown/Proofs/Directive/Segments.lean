import CommentMarkdown.Proofs.Directive.Resolution

/-!
# Segments of resolved prose

Resolved prose is a sequence of segments. A raw segment is the same for both targets.
A shielded one is what an outermost recognised directive yields: Markdown shows it as
it is, markup shows it escaped between the tags of one element. What lies inside such
a directive, be it recognised or not, opens no segment of its own.

Both readings of a tree are made up of its segments (`textOf_eq_flatMap_segments`,
`markupOf_eq_flatMap_segments`), and its shielded segments are its outermost
recognised directives in order. Both targets read the same tree, so they fail together
and with the same error.
-/

namespace CommentMarkdown.Directive

/-- The names of the directives that are recognised. -/
def recognizedNames : List Text :=
  codeNames ++ ["literal".toList]

/-- Whether a group is a directive with a meaning. -/
def Head.recognized (head : Head) : Bool :=
  head.name?.any fun name => name ∈ recognizedNames

/-- A piece of resolved prose. -/
inductive Segment
  /-- A piece that stands outside of all recognised directives. -/
  | raw (content : Text)
  /-- What an outermost recognised directive yields. -/
  | shielded (content : Text)
  deriving DecidableEq, Repr

namespace Segment

/-- The piece as Markdown. -/
def content : Segment → Text
  | raw content => content
  | shielded content => content

/-- The piece inside markup. -/
def marked : Segment → Text
  | raw content => content
  | shielded content => "<docmd-md>".toList ++ Text.escape content ++ "</docmd-md>".toList

/-- What a directive yields, if the piece is that of one. -/
def shielded? : Segment → Option Text
  | raw _ => none
  | shielded content => some content

end Segment

mutual

/-- The outermost recognised directives of an item. -/
def Item.outermost : Item → List Item
  | .char _ => []
  | .group head body => if head.recognized then [.group head body] else outermostOf body

/-- The recognised directives of a list that lie in no other one, in order. -/
def outermostOf : List Item → List Item
  | [] => []
  | item :: rest => item.outermost ++ outermostOf rest

end

mutual

/-- The segments of an item. -/
def Item.segments : Item → List Segment
  | .char c => [.raw [c]]
  | .group head body =>
    if head.recognized then [.shielded (Item.group head body).text] else segmentsOf body

/-- The segments of a list of items, in order. -/
def segmentsOf : List Item → List Segment
  | [] => []
  | item :: rest => item.segments ++ segmentsOf rest

end

/-- A directive is recognised exactly if its name calls for a style. -/
theorem recognized_iff (head : Head) : head.recognized = true ↔ head.style ≠ .bare := by
  cases head with
  | plain => simp [Head.recognized, Head.name?, Head.style]
  | named name spaced =>
    simp only [Head.recognized, Head.name?, recognizedNames, codeNames, Head.style,
      Option.any_some, decide_eq_true_eq, List.mem_append, List.mem_cons, List.not_mem_nil, or_false]
    split
    next code => exact iff_of_true (.inl code) (by decide)
    next noCode =>
      split
      next literal => exact iff_of_true (.inr literal) (by decide)
      next noLiteral => exact iff_of_false (not_or.mpr ⟨noCode, noLiteral⟩) (fun styled => styled rfl)

/-- A group that is not recognised calls for no style. -/
theorem style_eq_bare {head : Head} (unknown : ¬ head.recognized = true) : head.style = .bare :=
  Decidable.not_not.mp fun styled => unknown ((recognized_iff head).mpr styled)

/-- A shielded segment inside markup is the shield around its content. -/
theorem marked_shielded (content : Text) : (Segment.shielded content).marked = shield content := by
  have opening : "<docmd-md>".toList = '<' :: shieldName ++ ['>'] := by decide
  have closing : "</docmd-md>".toList = '<' :: '/' :: shieldName ++ ['>'] := by decide
  unfold Segment.marked shield
  rewrite [opening, closing]
  simp only [List.append_assoc, List.cons_append, List.nil_append]

/-- The Markdown of a tree is that of its segments. A group without a meaning adds nothing to
the segments of its content. -/
theorem textOf_eq_flatMap_segments (items : List Item) :
    textOf items = (segmentsOf items).flatMap Segment.content := by
  induction items using Item.listInduction with
  | nil => rfl
  | char c rest behind =>
    rw [textOf, Item.text, segmentsOf, Item.segments, List.flatMap_append, behind]
    rfl
  | group head body rest inside behind =>
    rw [textOf, segmentsOf, Item.segments, List.flatMap_append, behind]
    by_cases known : head.recognized = true
    · rw [if_pos known, List.flatMap_singleton, Segment.content]
    · rw [if_neg known, Item.text, style_eq_bare known, Style.enclose, inside]

/-- The Markdown of a tree inside markup is that of its segments. -/
theorem markupOf_eq_flatMap_segments (items : List Item) :
    markupOf items = (segmentsOf items).flatMap Segment.marked := by
  induction items using Item.listInduction with
  | nil => rfl
  | char c rest behind =>
    rw [markupOf, Item.markup, segmentsOf, Item.segments, List.flatMap_append, behind]
    rfl
  | group head body rest inside behind =>
    rw [markupOf, Item.markup, segmentsOf, Item.segments, List.flatMap_append, behind]
    by_cases known : head.recognized = true
    · rw [if_pos known, if_neg ((recognized_iff head).mp known), List.flatMap_singleton,
        marked_shielded, Item.text]
    · rw [if_neg known, if_pos (style_eq_bare known), inside]

/-- There is one shielded segment for each outermost recognised directive, and it holds the
Markdown of that directive. -/
theorem shielded_segmentsOf (items : List Item) :
    (segmentsOf items).filterMap Segment.shielded? = (outermostOf items).map Item.text := by
  induction items using Item.listInduction with
  | nil => rfl
  | char c rest behind => exact behind
  | group head body rest inside behind =>
    rw [segmentsOf, Item.segments, outermostOf, Item.outermost, List.filterMap_append,
      List.map_append, behind]
    by_cases known : head.recognized = true
    · rw [if_pos known, if_pos known]
      rfl
    · rw [if_neg known, if_neg known, inside]

/-- Escaped text holds no angle bracket, so no tag can begin or end in it. -/
theorem angle_not_mem_escape (text : Text) : '<' ∉ Text.escape text ∧ '>' ∉ Text.escape text := by
  have noAngle (c : Char) : '<' ∉ Text.escapeChar c ∧ '>' ∉ Text.escapeChar c := by
    unfold Text.escapeChar
    split
    · decide
    split
    · decide
    split
    · decide
    next _ noOpening noClosing => simp [Ne.symm noOpening, Ne.symm noClosing]
  constructor <;> intro member
  · obtain ⟨c, _, inside⟩ := List.mem_flatMap.mp member
    exact (noAngle c).1 inside
  · obtain ⟨c, _, inside⟩ := List.mem_flatMap.mp member
    exact (noAngle c).2 inside

/-- A brace is not escaped, and no brace comes from what is. -/
theorem count_escape {c : Char} (brace : c = '{' ∨ c = '}') (text : Text) :
    (Text.escape text).count c = text.count c := by
  have single (d : Char) : (Text.escapeChar d).count c = [d].count c := by
    unfold Text.escapeChar
    split
    next same => rcases brace with rfl | rfl <;> rw [same] <;> decide
    split
    next same => rcases brace with rfl | rfl <;> rw [same] <;> decide
    split
    next same => rcases brace with rfl | rfl <;> rw [same] <;> decide
    next => rfl
  induction text with
  | nil => rfl
  | cons d rest ih =>
    rw [← List.singleton_append, Text.escape_append, List.count_append, List.count_append, ih,
      ← single d, Text.escape, List.flatMap_singleton]

/-- The tags around a shielded segment hold no brace. -/
theorem count_marked {c : Char} (brace : c = '{' ∨ c = '}') (segment : Segment) :
    segment.marked.count c = segment.content.count c := by
  cases segment with
  | raw content => rfl
  | shielded content =>
    have opening : "<docmd-md>".toList.count c = 0 := by
      rcases brace with rfl | rfl <;> decide
    have closing : "</docmd-md>".toList.count c = 0 := by
      rcases brace with rfl | rfl <;> decide
    calc (Segment.shielded content).marked.count c
        = ("<docmd-md>".toList ++ Text.escape content ++ "</docmd-md>".toList).count c := rfl
      _ = content.count c := by
        rw [List.count_append, List.count_append, count_escape brace, opening, closing,
          Nat.zero_add, Nat.add_zero]

/-- Both targets show the same braces of a tree. -/
theorem count_render {c : Char} (brace : c = '{' ∨ c = '}') (target : Target) (items : List Item) :
    (target.render items).count c = (textOf items).count c := by
  cases target with
  | text => rfl
  | markup =>
    rw [Target.render, markupOf_eq_flatMap_segments, textOf_eq_flatMap_segments, List.count_flatMap,
      List.count_flatMap]
    congr 1
    apply List.map_congr_left
    intro segment _
    exact count_marked brace segment

/-- Both targets agree on a text. Either resolving fails for both with one error, or the text has
a tree and one list of segments from which both results are put together: as they are for
Markdown, with each outermost recognised directive escaped in an element of its own for
markup. Between the tags of such an element stands no angle bracket, so the elements are
closed one by one and none lies in another. -/
theorem targets_agree (limits : Limits) (text : Text) :
    (∃ error, (resolve limits .text text).value = .error error ∧
        (resolve limits .markup text).value = .error error) ∨
      ∃ (items : List Item) (segments : List Segment),
        Reads limits.directiveDepth text items ∧
        segments.filterMap Segment.shielded? = (outermostOf items).map Item.text ∧
        (resolve limits .text text).value = .ok (segments.flatMap Segment.content) ∧
        (resolve limits .markup text).value = .ok (segments.flatMap Segment.marked) ∧
        ∀ content, .shielded content ∈ segments →
          ∃ inner, (Segment.shielded content).marked =
            "<docmd-md>".toList ++ inner ++ "</docmd-md>".toList ∧ '<' ∉ inner ∧ '>' ∉ inner := by
  cases read : (parse limits.directiveDepth text).value with
  | error error =>
    refine .inl ⟨error, ?_, ?_⟩ <;> rw [resolve_eq_map_parse, Diagnosed.value_map, read] <;> rfl
  | ok items =>
    have reads : Reads limits.directiveDepth text items := (parse_eq_ok_iff _ _ _).mp read
    refine .inr ⟨items, segmentsOf items, reads, shielded_segmentsOf items, ?_, ?_, ?_⟩
    · rw [value_resolve_of_reads reads .text, ← textOf_eq_flatMap_segments]
      rfl
    · rw [value_resolve_of_reads reads .markup, ← markupOf_eq_flatMap_segments]
      rfl
    · intro content _
      exact ⟨Text.escape content, rfl, angle_not_mem_escape content⟩

end CommentMarkdown.Directive
