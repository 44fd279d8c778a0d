import CommentMarkdown.Markdown.Normal
import CommentMarkdown.Proofs.Directive.Replacement
import CommentMarkdown.Proofs.Text.Tidiness

/-!
# What the clean-up of a section leaves

The clean-up makes a section tidy first and resolves its directives then, so it is the
directives that decide whether the result is tidy. A group takes its braces and its head out
of the text. What it yields comes to stand between the characters around it, and if white
space stands at its ends, or nothing is left of it, then white space meets what it had been
apart from. Groups that are shown as code keep a mark at either end.

If every other group yields text that can be seen at both ends, the result is tidy
(`normal_normalize`). In any case one more clean-up does nothing but tidy the result
(`value_normalize_normalize`), because no group is left for it to resolve.
-/

namespace CommentMarkdown

namespace Directive

mutual

/-- The groups of an item, each with its head and its content. -/
def Item.groups : Item → List (Head × List Item)
  | .char _ => []
  | .group head body => (head, body) :: groupsOf body

/-- The groups of a list of items, however deep they lie. -/
def groupsOf : List Item → List (Head × List Item)
  | [] => []
  | item :: rest => item.groups ++ groupsOf rest

end

/-- The groups of a list are those of its parts. -/
theorem groupsOf_append (first second : List Item) :
    groupsOf (first ++ second) = groupsOf first ++ groupsOf second := by
  induction first with
  | nil => rfl
  | cons item rest ih => rw [List.cons_append, groupsOf, groupsOf, ih, List.append_assoc]

/-- Every group that is not shown as code yields text that can be seen at both ends. -/
def Solid (items : List Item) : Prop :=
  ∀ head body, (head, body) ∈ groupsOf items → head.style ≠ .code → Text.Firm (textOf body)

instance (items : List Item) : Decidable (Solid items) :=
  decidable_of_iff
    (∀ group ∈ groupsOf items, group.1.style ≠ .code → Text.Firm (textOf group.2))
    ⟨fun solid head body member => solid (head, body) member,
      fun solid group member => solid group.1 group.2 member⟩

/-- Whatever yields solid text does so in each of its parts. -/
theorem solid_group_iff (head : Head) (body rest : List Item) :
    Solid (.group head body :: rest) ↔
      (head.style ≠ .code → Text.Firm (textOf body)) ∧ Solid body ∧ Solid rest := by
  simp only [Solid, groupsOf, Item.groups, List.cons_append, List.mem_cons, List.mem_append,
    Prod.mk.injEq]
  constructor
  · intro solid
    refine ⟨solid head body (.inl ⟨rfl, rfl⟩), ?_, ?_⟩
    · exact fun inner content member => solid inner content (.inr (.inl member))
    · exact fun inner content member => solid inner content (.inr (.inr member))
  · rintro ⟨here, inside, behind⟩ inner content (⟨rfl, rfl⟩ | member | member)
    · exact here
    · exact inside inner content member
    · exact behind inner content member

/-- A group with solid content yields text that can be seen at both ends. -/
theorem firm_enclose {head : Head} {content : Text}
    (firm : head.style ≠ .code → Text.Firm content) : Text.Firm (head.style.enclose content) := by
  by_cases code : head.style = .code
  · rw [code, Style.enclose, Markdown.codeSpan]
    have mark : Text.Firm ['\x60'] := ⟨⟨by simp; decide, by simp; decide⟩, by simp⟩
    exact mark.append mark content
  · rw [enclose_of_ne_code code]
    exact firm code

/-- Neat prose with solid groups yields neat text, whatever neat text follows, provided that as
many line breaks follow in the prose. The number of line breaks at the front is carried
along, since it decides what may stand in front of the text. A group is firm whatever it
yields, so nothing depends on what has been taken out around it. -/
theorem neat_textOf_append (items : List Item) (following source : Text) (solid : Solid items)
    (neat : Text.Neat following) (same : Text.breaks following = Text.breaks source)
    (neatSource : Text.Neat (sourceOf items ++ source)) :
    Text.Neat (textOf items ++ following) ∧
      Text.breaks (textOf items ++ following) = Text.breaks (sourceOf items ++ source) := by
  induction items using Item.listInduction generalizing following source with
  | nil => exact ⟨neat, same⟩
  | char c rest behind =>
    obtain ⟨neatSourceRest, fits⟩ := (Text.neat_cons_iff c (sourceOf rest ++ source)).mp neatSource
    obtain ⟨neatRest, sameRest⟩ := behind following source solid neat same neatSourceRest
    rw [← sameRest] at fits
    refine ⟨(Text.neat_cons_iff c (textOf rest ++ following)).mpr ⟨neatRest, fits⟩, ?_⟩
    simp only [textOf, Item.text, sourceOf, Item.source, List.cons_append, List.nil_append,
      Text.breaks, sameRest]
  | group head body rest inside behind =>
    obtain ⟨firmBody, solidBody, solidRest⟩ := (solid_group_iff head body rest).mp solid
    have firm : Text.Firm (head.style.enclose (textOf body)) := firm_enclose firmBody
    have whole : sourceOf (.group head body :: rest) ++ source =
        ('{' :: head.source) ++ (sourceOf body ++ '}' :: (sourceOf rest ++ source)) := by
      simp [sourceOf, Item.source]
    have neatInside : Text.Neat (sourceOf body ++ '}' :: (sourceOf rest ++ source)) :=
      neatSource.of_infix (whole ▸ (List.suffix_append _ _).isInfix)
    have neatSourceRest : Text.Neat (sourceOf rest ++ source) :=
      neatInside.of_infix ⟨sourceOf body ++ ['}'], [], by simp⟩
    obtain ⟨neatRest, sameRest⟩ := behind following source solidRest neat same neatSourceRest
    have neatHere : Text.Neat (head.style.enclose (textOf body)) := by
      by_cases code : head.style = .code
      · -- The mark behind the content stands where its brace stood, and neither is a line break.
        have mark : Text.Neat ['\x60'] := Text.neat_cons_of_not_space (by decide) Text.neat_nil
        obtain ⟨content, _⟩ := inside ['\x60'] ('}' :: (sourceOf rest ++ source)) solidBody
          mark rfl neatInside
        rw [code]
        exact Text.neat_cons_of_not_space (by decide) content
      · obtain ⟨content, _⟩ := inside [] ('}' :: (sourceOf rest ++ source)) solidBody
          Text.neat_nil rfl neatInside
        rw [enclose_of_ne_code code]
        simpa using content
    rw [textOf, Item.text, List.append_assoc]
    refine ⟨Text.neat_append neatHere neatRest firm.last, ?_⟩
    rw [Text.breaks_append firm.nonempty firm.last, firm.breaks_eq_zero, whole]
    rfl

/-- The ends of prose with solid groups are characters, or groups that yield something that can
be seen. -/
theorem trimmed_textOf (items : List Item) (solid : Solid items)
    (trimmed : Text.Trimmed (sourceOf items)) : Text.Trimmed (textOf items) := by
  have firm (head : Head) (body : List Item) (member : Item.group head body ∈ items) :
      Text.Firm (head.style.enclose (textOf body)) := by
    obtain ⟨before, after, rfl⟩ := List.append_of_mem member
    have solidRest : Solid (.group head body :: after) := fun inner content found =>
      solid inner content (groupsOf_append before _ ▸ List.mem_append_right _ found)
    exact firm_enclose ((solid_group_iff head body after).mp solidRest).1
  constructor
  · cases items with
    | nil => exact trimmed.first
    | cons item rest =>
      cases item with
      | char c => exact trimmed.first
      | group head body =>
        have firmHere := firm head body (by simp)
        rw [textOf, Item.text, List.head?_append_of_ne_nil _ firmHere.nonempty]
        exact firmHere.first
  · rcases List.eq_nil_or_concat items with rfl | ⟨before, item, rfl⟩
    · exact trimmed.last
    · rw [List.concat_eq_append, textOf_append]
      cases item with
      | char c =>
        have last := trimmed.last
        simpa [textOf, Item.text, sourceOf, Item.source] using last
      | group head body =>
        have firmHere := firm head body (by simp)
        rw [List.getLast?_append_of_ne_nil _ (by simpa [textOf, Item.text] using firmHere.nonempty)]
        simpa [textOf, Item.text] using firmHere.last

/-- Prose with solid groups yields text as a finished section is to be, if it is so itself. -/
theorem normal_textOf (items : List Item) (solid : Solid items)
    (normal : Text.Normal (sourceOf items)) : Text.Normal (textOf items) := by
  have neatSource : Text.Neat (sourceOf items ++ []) := by simpa using normal.toNeat
  obtain ⟨neat, _⟩ := neat_textOf_append items [] [] solid Text.neat_nil rfl neatSource
  exact { trimmed_textOf items solid normal.toTrimmed with
    toNeat := by simpa using neat }

end Directive

namespace Markdown

open Directive (Item Reads Solid textOf)

/-- A section whose groups nest is shown as the tree of its tidy text. -/
theorem value_normalize_of_reads {limits : Limits} {text : Text} {items : List Item}
    (reads : Reads limits.directiveDepth (Text.tidy text) items) :
    (normalize limits text).value = textOf items := by
  exact Directive.value_replace_of_ok (Directive.value_resolve_of_reads reads .text)

/-- A section whose groups do not nest is only made tidy. -/
theorem value_normalize_of_unread {limits : Limits} {text : Text}
    (unread : ∀ items, ¬ Reads limits.directiveDepth (Text.tidy text) items) :
    (normalize limits text).value = Text.tidy text := by
  cases resolved : (Directive.resolve limits .text (Text.tidy text)).value with
  | error error => exact Directive.value_replace_of_error resolved
  | ok shown =>
    obtain ⟨items, reads, _⟩ := Directive.exists_reads_of_resolve resolved
    exact absurd reads (unread items)

/-- The groups of a section's tidy text are solid, as far as they nest. -/
def SolidSection (limits : Limits) (text : Text) : Prop :=
  ∀ items, Reads limits.directiveDepth (Text.tidy text) items → Solid items

/-- The one tree that a section can have is found by reading it. -/
theorem solidSection_iff (limits : Limits) (text : Text) :
    SolidSection limits text ↔
      ∀ items ∈ (Directive.parse limits.directiveDepth (Text.tidy text)).value.toOption,
        Solid items := by
  simp only [SolidSection, ← Directive.parse_eq_ok_iff]
  cases (Directive.parse limits.directiveDepth (Text.tidy text)).value <;> simp [Except.toOption]

instance (limits : Limits) (text : Text) : Decidable (SolidSection limits text) :=
  decidable_of_iff _ (solidSection_iff limits text).symm

/-- The clean-up of a section with solid groups leaves a section as it is to be. -/
theorem normal_normalize {limits : Limits} {text : Text} (solid : SolidSection limits text) :
    Text.Normal (normalize limits text).value := by
  have normal := Text.normal_tidy text
  by_cases nests : ∃ items, Reads limits.directiveDepth (Text.tidy text) items
  · obtain ⟨items, reads⟩ := nests
    rw [value_normalize_of_reads reads]
    exact Directive.normal_textOf items (solid items reads) (reads.source ▸ normal)
  · rw [value_normalize_of_unread (not_exists.mp nests)]
    exact normal

/-- The second clean-up of a section tidies it and does nothing else. If its groups nest, none of
them is left; otherwise it is tidy already, and its groups still do not nest. -/
theorem value_normalize_normalize (limits : Limits) (text : Text) :
    (normalize limits (normalize limits text).value).value =
      Text.tidy (normalize limits text).value := by
  by_cases nests : ∃ items, Reads limits.directiveDepth (Text.tidy text) items
  · obtain ⟨items, reads⟩ := nests
    have flat := Directive.opening_not_mem_textOf items reads.prose
    rw [value_normalize_of_reads reads, normalize,
      Directive.replace_of_no_opening _ _ fun member => flat (Text.mem_of_mem_tidy member)]
    rfl
  · have unread := not_exists.mp nests
    have idle : Text.tidy (Text.tidy text) = Text.tidy text :=
      (Text.tidy_eq_self_iff _).mpr (Text.normal_tidy text)
    have unreadAgain : ∀ items,
        ¬ Reads limits.directiveDepth (Text.tidy (Text.tidy text)) items := by
      rwa [idle]
    rw [value_normalize_of_unread unread]
    exact value_normalize_of_unread unreadAgain

end Markdown

end CommentMarkdown
