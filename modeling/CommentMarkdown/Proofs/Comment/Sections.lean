import CommentMarkdown.Comment.Basic
import CommentMarkdown.Proofs.Markdown.Cleanup

/-!
# What a rendered comment looks like

Prose and block tags end in the same clean-up, so what it leaves of a section is what both of
them show (`Finishes`). A comment adds nothing to that but an empty line between two sections,
which keeps what it sets apart normal if it was so before (`normal_joinSections`).

The clean-up does not make every section normal. The white space that a group was written
with stays at the place where its braces stood (`spacedGroup_not_normal`).
-/

namespace CommentMarkdown

open Text (Firm Neat Normal)
open Markdown (SolidSection)

/-- The value of a list of computations is the list of their values. -/
theorem Diagnosed.value_mapM {α β : Type} (f : α → Diagnosed β) (inputs : List α) :
    (inputs.mapM f).value = inputs.map fun input => (f input).value := by
  induction inputs with
  | nil => rfl
  | cons input rest ih => simp [ih]

/-- What is left of a section's draft when it is done. Its groups are resolved in the tidy text, or
left alone if they do not nest, and the result is normal if the groups are solid. -/
structure Finishes (limits : Limits) (draft shown : Text) : Prop where
  resolved : ∀ items, Directive.Reads limits.directiveDepth (Text.tidy draft) items →
    Directive.Shows items shown
  kept : (∀ items, ¬ Directive.Reads limits.directiveDepth (Text.tidy draft) items) →
    shown = Text.tidy draft
  normal : SolidSection limits draft → Normal shown

/-- What the clean-up leaves of a text. -/
def Markdown.cleaned (limits : Limits) (text : Text) : Text :=
  (normalize limits text).value

/-- The clean-up finishes every draft. -/
theorem Markdown.finishes_normalize (limits : Limits) (draft : Text) :
    Finishes limits draft (cleaned limits draft) where
  resolved items reads := (Directive.shows_iff items _).mpr (value_normalize_of_reads reads)
  kept unread := value_normalize_of_unread unread
  normal solid := normal_normalize solid

/-- A sequence of nodes as it is before its clean-up. -/
def Node.draft (limits : Limits) (nodes : List Node) : Text :=
  (Node.renderSequence limits 0 [] nodes).value

/-- What a sequence is drafted to begins with its first node. -/
theorem Node.value_renderSequence_cons (limits : Limits) (depth : Nat) (opened : List Text)
    (node : Node) (rest : List Node) :
    (renderSequence limits depth opened (node :: rest)).value =
      (render limits depth opened node).value ++
        (renderSequence limits depth (node.openBehind opened) rest).value :=
  rfl

/-- Block tags, each on a line of its own, before they are cleaned up as a whole. -/
def BlockTag.draft (limits : Limits) (tags : List BlockTag) : Text :=
  ['\n'].intercalate (tags.map fun tag => (tag.render limits).value)

/-- A whole sequence is never too deep, so it is cleaned up. -/
theorem Node.value_renderAll (limits : Limits) (nodes : List Node) :
    (Node.renderAll limits nodes).value = Markdown.cleaned limits (Node.draft limits nodes) := by
  rw [Node.renderAll, Node.sectionAt, if_neg (Nat.not_lt_zero _), Diagnosed.value_bind]
  rfl

/-- The remarks on the tags leave no trace in the text. -/
theorem BlockTag.value_renderAll (limits : Limits) (tags : List BlockTag) :
    (BlockTag.renderAll limits tags).value =
      Markdown.cleaned limits (BlockTag.draft limits tags) := by
  rw [BlockTag.renderAll, Diagnosed.value_bind, Diagnosed.value_mapM]
  rfl

namespace Comment

/-- The rendered sections of a comment, in their order. -/
def sections (limits : Limits) (comment : Comment) : List Text :=
  [(Node.renderAll limits comment.summary).value, (Node.renderAll limits comment.body).value,
    (BlockTag.renderAll limits comment.tags).value]

/-- An empty line may stand in front of neat text that can be seen at its front. -/
theorem neat_emptyLine_append {part : Text} (firm : Firm part) (neat : Neat part) :
    Neat ("\n\n".toList ++ part) := by
  have none : Text.breaks part = 0 := firm.breaks_eq_zero
  have one : Text.breaks ('\n' :: part) = 1 := by rw [Text.breaks, if_pos rfl, none]
  have neatOne : Neat ('\n' :: part) :=
    (Text.neat_cons_iff '\n' part).mpr ⟨neat, none ▸ by decide⟩
  exact (Text.neat_cons_iff '\n' ('\n' :: part)).mpr ⟨neatOne, one ▸ by decide⟩

/-- Empty lines between firm and neat parts leave the whole firm and neat. -/
theorem firm_neat_intercalate (first : Text) (rest : List Text)
    (parts : ∀ part ∈ first :: rest, Firm part ∧ Neat part) :
    Firm ("\n\n".toList.intercalate (first :: rest)) ∧
      Neat ("\n\n".toList.intercalate (first :: rest)) := by
  induction rest generalizing first with
  | nil => simpa [List.intercalate] using parts
  | cons second rest ih =>
    obtain ⟨firm, neat⟩ := parts first List.mem_cons_self
    obtain ⟨firmRest, neatRest⟩ := ih second fun part member =>
      parts part (List.mem_cons_of_mem first member)
    rw [List.intercalate_cons_cons, List.append_assoc]
    refine ⟨firm.append firmRest _, ?_⟩
    exact Text.neat_append neat (neat_emptyLine_append firmRest neatRest) firm.last

/-- Joined sections are normal if those that are shown are. -/
theorem normal_joinSections {sections : List Text}
    (normal : ∀ part ∈ sections, Text.isBlank part = false → Normal part) :
    Normal (joinSections sections) := by
  have parts : ∀ part ∈ sections.filter (fun part => !Text.isBlank part),
      Firm part ∧ Neat part := by
    intro part member
    obtain ⟨inside, seen⟩ := List.mem_filter.mp member
    rw [Bool.not_eq_true'] at seen
    have normalPart := normal part inside seen
    exact ⟨Firm.of_normal normalPart seen, normalPart.toNeat⟩
  unfold joinSections
  cases shown : sections.filter (fun part => !Text.isBlank part) with
  | nil => exact Text.normal_tidy []
  | cons first rest =>
    obtain ⟨firm, neat⟩ := firm_neat_intercalate first rest (shown ▸ parts)
    exact { firm.toTrimmed, neat with }

end Comment

section

open Markdown (cleaned)

/-- Prose and block tags are shown as their finished drafts, so they are normal if their groups
are solid. A comment is normal if the sections of it that say something are. The clean-up is
at rest after its second application at the latest, which makes any text normal, and after
its first exactly if that has done so. -/
theorem rendered_normal (limits : Limits) :
    (∀ nodes, Finishes limits (Node.draft limits nodes) (Node.renderAll limits nodes).value) ∧
    (∀ tags, Finishes limits (BlockTag.draft limits tags) (BlockTag.renderAll limits tags).value) ∧
    (∀ comment : Comment,
      (∀ part ∈ comment.sections limits, Text.isBlank part = false → Normal part) →
        Normal (comment.render limits).value) ∧
    (∀ text,
      cleaned limits (cleaned limits text) = Text.tidy (cleaned limits text) ∧
      Normal (cleaned limits (cleaned limits text)) ∧
      (cleaned limits (cleaned limits text) = cleaned limits text ↔
        Normal (cleaned limits text)) ∧
      cleaned limits (cleaned limits (cleaned limits text)) =
        cleaned limits (cleaned limits text)) := by
  have tidied (text : Text) :
      cleaned limits (cleaned limits text) = Text.tidy (cleaned limits text) :=
    Markdown.value_normalize_normalize limits text
  have normal (text : Text) : Normal (cleaned limits (cleaned limits text)) :=
    tidied text ▸ Text.normal_tidy _
  refine ⟨?_, ?_, ?_, ?_⟩
  · intro nodes
    rw [Node.value_renderAll]
    exact Markdown.finishes_normalize limits _
  · intro tags
    rw [BlockTag.value_renderAll]
    exact Markdown.finishes_normalize limits _
  · intro comment normal
    exact Comment.normal_joinSections normal
  · intro text
    refine ⟨tidied text, normal text, ?_, ?_⟩
    · rw [tidied text]
      exact Text.tidy_eq_self_iff _
    · rw [tidied (cleaned limits text)]
      exact (Text.tidy_eq_self_iff _).mpr (normal text)

/-- A group that can be seen at both ends, and code that ends with a blank, leave the sections
that they stand in normal, and so the comment that has these sections. -/
theorem visibleGroups_normal :
    SolidSection {} (Node.draft {} [.text "{b} {@code x }".toList]) ∧
    Normal (Node.renderAll {} [.text "{b} {@code x }".toList]).value ∧
    SolidSection {} (BlockTag.draft {} [.unknown "{b} {@code x }".toList]) ∧
    Normal (BlockTag.renderAll {} [.unknown "{b} {@code x }".toList]).value ∧
    Normal
      (Comment.render {} ⟨[.text "{b}".toList], [], [.unknown "{@code x }".toList]⟩).value := by
  obtain ⟨prose, tags, comments, _⟩ := rendered_normal {}
  have solidProse : SolidSection {} (Node.draft {} [.text "{b} {@code x }".toList]) := by
    decide +kernel
  have solidTags : SolidSection {} (BlockTag.draft {} [.unknown "{b} {@code x }".toList]) := by
    decide +kernel
  refine ⟨solidProse, (prose _).normal solidProse, solidTags, (tags _).normal solidTags, ?_⟩
  exact comments _ (by decide +kernel)

/-- A group keeps the blanks that it was written with, so neither prose nor block tags nor a
comment that consists of one is normal, and the clean-up is not at rest behind it. -/
theorem spacedGroup_not_normal :
    ¬ Normal (Node.renderAll {} [.text "{ a }".toList]).value ∧
    ¬ Normal (BlockTag.renderAll {} [.unknown "{ a }".toList]).value ∧
    ¬ Normal (Comment.render {} ⟨[.text "{ a }".toList], [], []⟩).value ∧
    cleaned {} (cleaned {} "{ a }".toList) ≠ cleaned {} "{ a }".toList := by
  refine ⟨?_, ?_, ?_, ?_⟩ <;> decide +kernel

end

end CommentMarkdown
