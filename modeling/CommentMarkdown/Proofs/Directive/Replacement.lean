import CommentMarkdown.Proofs.Directive.Resolution

/-!
# Texts without groups left

Replacing the directives of a text either resolves all of its groups or leaves the text as
it is. A resolved text holds no opening brace, since every one of them has opened a group
that is gone (`opening_not_mem_of_resolve`). So there is nothing in it that could be
resolved a second time.
-/

namespace CommentMarkdown.Directive

/-- Without an opening brace there is nothing to replace and nothing to remark on. -/
theorem replace_of_no_opening (limits : Limits) (target : Target) {text : Text}
    (flat : '{' ∉ text) : replace limits target text = pure text := by
  rw [replace, resolve, if_neg flat, pure_bind]

/-- A text that can be resolved is replaced by what it is resolved to. -/
theorem value_replace_of_ok {limits : Limits} {target : Target} {text resolved : Text}
    (found : (resolve limits target text).value = .ok resolved) :
    (replace limits target text).value = resolved := by
  rw [replace, Diagnosed.value_bind, found]
  rfl

/-- A text that cannot be resolved is left as it is. -/
theorem value_replace_of_error {limits : Limits} {target : Target} {text : Text}
    {error : DirectiveError} (failed : (resolve limits target text).value = .error error) :
    (replace limits target text).value = text := by
  rw [replace, Diagnosed.value_bind, failed]
  rfl

/-- Whatever its style adds, a group yields no brace that its content does not yield. -/
theorem flat_enclose (style : Style) {content : Text} (flat : ∀ c ∈ content, c ≠ '{' ∧ c ≠ '}') :
    ∀ c ∈ style.enclose content, c ≠ '{' ∧ c ≠ '}' := by
  cases style with
  | code =>
    intro c member
    rw [Style.enclose, Markdown.codeSpan, List.cons_append, List.mem_cons, List.mem_append,
      List.mem_singleton] at member
    rcases member with rfl | inside | rfl
    · decide
    · exact flat c inside
    · decide
  | literal => exact flat
  | bare => exact flat

/-- The content of a group yields no brace: there it is never a character. -/
theorem flat_textOf_inner (items : List Item) (inner : AllInner items) :
    ∀ c ∈ textOf items, c ≠ '{' ∧ c ≠ '}' := by
  induction items using Item.listInduction with
  | nil => exact fun _ => nofun
  | char c rest behind =>
    obtain ⟨noBrace, innerRest⟩ := inner
    exact List.forall_mem_cons.mpr ⟨noBrace, behind innerRest⟩
  | group head body rest inside behind =>
    obtain ⟨⟨_, innerBody⟩, innerRest⟩ := inner
    exact List.forall_mem_append.mpr ⟨flat_enclose _ (inside innerBody), behind innerRest⟩

/-- A whole text yields no opening brace either. Outside of all groups only a closing one is a
character. -/
theorem opening_not_mem_textOf (items : List Item) (prose : Prose items) : '{' ∉ textOf items := by
  induction items with
  | nil => exact List.not_mem_nil
  | cons item rest ih =>
    obtain ⟨fits, proseRest⟩ := List.forall_mem_cons.mp prose
    rw [textOf, List.mem_append, not_or]
    refine ⟨?_, ih proseRest⟩
    rcases fits with inner | rfl
    · have flat := flat_textOf_inner [item] ⟨inner, trivial⟩
      rw [textOf, textOf, List.append_nil] at flat
      exact fun opens => (flat '{' opens).1 rfl
    · simp [Item.text]

/-- A text that is resolved for a target has a tree, and is resolved to what the target makes
of that tree. -/
theorem exists_reads_of_resolve {limits : Limits} {target : Target} {text resolved : Text}
    (found : (resolve limits target text).value = .ok resolved) :
    ∃ items, Reads limits.directiveDepth text items ∧ resolved = target.render items := by
  rw [resolve_eq_map_parse, Diagnosed.value_map] at found
  cases read : (parse limits.directiveDepth text).value with
  | error error => simp [read, Except.map] at found
  | ok items =>
    rw [read, Except.map, Except.ok.injEq] at found
    exact ⟨items, (parse_eq_ok_iff _ _ _).mp read, found.symm⟩

/-- Resolved Markdown holds no opening brace. -/
theorem opening_not_mem_of_resolve {limits : Limits} {text shown : Text}
    (found : (resolve limits .text text).value = .ok shown) : '{' ∉ shown := by
  obtain ⟨items, reads, rfl⟩ := exists_reads_of_resolve found
  exact opening_not_mem_textOf items reads.prose

end CommentMarkdown.Directive
