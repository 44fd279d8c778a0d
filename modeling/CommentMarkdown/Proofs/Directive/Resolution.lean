import CommentMarkdown.Proofs.Directive.Parsing

/-!
# What resolving yields

Resolving a text for Markdown succeeds exactly if the text has a tree whose groups lie
no deeper than the limit, and it yields what that tree yields. A text without an
opening brace is not read at all. It is read all the same as a tree of characters
only, without a remark, so the shortcut cannot be told from reading
(`resolve_eq_map_parse`).
-/

namespace CommentMarkdown.Directive

open Token

/-- Without an opening brace the pass never leaves the outermost level, and every character
is taken up as it is. -/
theorem nest_of_no_opening (limit : Nat) (text : Text) (position : Nat) (before : List Item)
    (flat : '{' ∉ text) :
    nest limit position [] before (scan text) = pure (.ok (before.reverse ++ text.map .char)) := by
  induction text generalizing position before with
  | nil => simp [scan, nest]
  | cons c rest ih =>
    have flatRest : '{' ∉ rest := fun member => flat (by simp [member])
    by_cases closes : c = '}'
    · rw [closes, scan_closing, nest, ih _ _ flatRest]
      simp
    · have opens : c ≠ '{' := fun same => flat (by simp [same])
      rw [scan_char opens closes, nest, ih _ _ flatRest]
      simp

/-- Characters yield themselves. -/
theorem textOf_map_char (text : Text) : textOf (text.map .char) = text := by
  induction text with
  | nil => rfl
  | cons c rest ih => simp [textOf, Item.text, ih]

/-- Characters are handed to markup as they are. -/
theorem markupOf_map_char (text : Text) : markupOf (text.map .char) = text := by
  induction text with
  | nil => rfl
  | cons c rest ih => simp [markupOf, Item.markup, ih]

/-- Leaving a text without an opening brace unread changes neither what it is resolved to nor
the remarks, for either target. -/
theorem resolve_eq_map_parse (limits : Limits) (target : Target) (text : Text) :
    resolve limits target text =
      (fun read => read.map target.render) <$> parse limits.directiveDepth text := by
  by_cases opens : '{' ∈ text
  · rw [resolve, if_pos opens]
  · rw [resolve, if_neg opens, parse, nest_of_no_opening _ _ _ _ opens, map_pure]
    cases target with
    | text => simp [Target.render, Except.map, textOf_map_char]
    | markup => simp [Target.render, Except.map, markupOf_map_char]

/-- A text that has a tree is resolved to what its target makes of the tree. -/
theorem value_resolve_of_reads {limits : Limits} {text : Text} {items : List Item}
    (reads : Reads limits.directiveDepth text items) (target : Target) :
    (resolve limits target text).value = .ok (target.render items) := by
  rw [resolve_eq_map_parse, Diagnosed.value_map, (parse_eq_ok_iff _ _ _).mpr reads]
  rfl

/-- Resolving for Markdown accepts exactly the texts of the grammar whose groups lie no deeper
than the limit. Such a text has one tree, under any limit, and is resolved to the one text
that the tree yields. The shortcut for texts without an opening brace agrees with
reading them. -/
theorem resolve_text_exact (limits : Limits) (text : Text) :
    ((∃ shown, (resolve limits .text text).value = .ok shown) ↔
        ∃ items, Reads limits.directiveDepth text items) ∧
      (∀ items, Reads limits.directiveDepth text items →
        (∀ other, Prose other → sourceOf other = text → other = items) ∧
          ∀ shown, Shows items shown ↔ (resolve limits .text text).value = .ok shown) ∧
      ('{' ∉ text →
        (resolve limits .text text).value = .ok text ∧
          (parse limits.directiveDepth text).value.map textOf = .ok text) := by
  refine ⟨⟨?_, ?_⟩, ?_, ?_⟩
  · rintro ⟨shown, resolved⟩
    rw [resolve_eq_map_parse, Diagnosed.value_map] at resolved
    cases read : (parse limits.directiveDepth text).value with
    | error error => simp [read, Except.map] at resolved
    | ok items => exact ⟨items, (parse_eq_ok_iff _ _ _).mp read⟩
  · rintro ⟨items, reads⟩
    exact ⟨_, value_resolve_of_reads reads .text⟩
  · intro items reads
    refine ⟨?_, ?_⟩
    · intro other prose source
      exact prose_unique other items prose reads.prose (source.trans reads.source.symm)
    · intro shown
      rw [shows_iff, value_resolve_of_reads reads .text, Except.ok.injEq]
      exact eq_comm
  · intro flat
    have unread : (resolve limits .text text).value = .ok text := by simp [resolve, flat]
    refine ⟨unread, ?_⟩
    rw [resolve_eq_map_parse, Diagnosed.value_map] at unread
    exact unread

end CommentMarkdown.Directive
