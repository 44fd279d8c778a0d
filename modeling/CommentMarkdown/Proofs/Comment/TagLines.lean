import CommentMarkdown.Proofs.Comment.Sections
import CommentMarkdown.Proofs.Directive.Concatenation
import CommentMarkdown.Proofs.Text.Lines

/-!
# Block tags side by side

The block tags of a comment are joined first and cleaned up then, as one section. Tidying keeps
the tags apart, each of which can be seen at both ends. Resolving directives does so only if the
groups of each tag nest on their own. A group that is left open in one tag takes in the tags
behind it, or, if nothing closes it, keeps the groups of all tags from being resolved
(`openTag_interferes`).

So tags are shown as each of them is shown alone exactly if the groups of all of them nest, or
if those of the whole do not and no tag by itself has a group that could be resolved
(`tags_apart_exact`).
-/

namespace CommentMarkdown

open Directive (Nests)

namespace BlockTag

/-- The line of a tag in the section of all tags, before its directives are resolved. -/
def line (limits : Limits) (tag : BlockTag) : Text :=
  Text.tidy (tag.render limits).value

/-- Tags that can be seen at both ends are tidied one by one. -/
theorem tidy_draft {limits : Limits} {tags : List BlockTag}
    (firm : ∀ tag ∈ tags, Text.Firm (tag.render limits).value) :
    Text.tidy (draft limits tags) = ['\n'].intercalate (tags.map (line limits)) := by
  have firmLines : ∀ shown ∈ tags.map (fun tag => (tag.render limits).value), Text.Firm shown := by
    intro shown member
    obtain ⟨tag, inside, rfl⟩ := List.mem_map.mp member
    exact firm tag inside
  rw [draft, Text.tidy_intercalate firmLines, List.map_map]
  rfl

/-- Tags that can be seen at both ends are shown as their joined lines with the directives
resolved. -/
theorem value_renderAll_of_firm {limits : Limits} {tags : List BlockTag}
    (firm : ∀ tag ∈ tags, Text.Firm (tag.render limits).value) :
    (renderAll limits tags).value =
      (Directive.replace limits .text (['\n'].intercalate (tags.map (line limits)))).value := by
  rw [value_renderAll, Markdown.cleaned, Markdown.normalize, tidy_draft firm]

/-- A tag alone is shown as its line with the directives resolved. -/
theorem value_renderAll_singleton (limits : Limits) (tag : BlockTag) :
    (renderAll limits [tag]).value = (Directive.replace limits .text (tag.line limits)).value := by
  rw [value_renderAll, Markdown.cleaned, Markdown.normalize]
  simp only [draft, List.map_cons, List.map_nil, List.intercalate_singleton]
  rfl

/-- Tags that can be seen at both ends are shown as the lines of the tags alone exactly if the
groups of each tag's line nest on their own, or if those of the joined lines do not and no line
whose groups nest has any. In the first case no tag has a part in how another one is shown. -/
theorem tags_apart_exact (limits : Limits) (tags : List BlockTag)
    (firm : ∀ tag ∈ tags, Text.Firm (tag.render limits).value) :
    let lines := tags.map (line limits)
    (renderAll limits tags).value =
        ['\n'].intercalate (tags.map fun tag => (renderAll limits [tag]).value) ↔
      (∀ line ∈ lines, Nests limits.directiveDepth line) ∨
        (¬ Nests limits.directiveDepth (['\n'].intercalate lines) ∧
          ∀ line ∈ lines, Nests limits.directiveDepth line → '{' ∉ line) := by
  intro lines
  have alone : (tags.map fun tag => (renderAll limits [tag]).value) =
      lines.map fun line => (Directive.replace limits .text line).value := by
    rw [List.map_map]
    apply List.map_congr_left
    intro tag _
    exact value_renderAll_singleton limits tag
  rw [value_renderAll_of_firm firm, alone]
  exact Directive.value_replace_intercalate_iff limits (by decide) lines

/-- A parameter and a tag that is not recognised, each with groups of its own. -/
def closedTags : List BlockTag :=
  [.param "n".toList false [.text "the {@code n}th".toList],
    .unknown "@note  two\n\n\nlines \x7b@b of \x7bit\x7d\x7d \n\x7d".toList]

/-- Tags whose groups nest are shown as each is alone. -/
theorem closedTags_apart :
    (∀ tag ∈ closedTags, Text.Firm (tag.render {}).value) ∧
      (∀ shown ∈ closedTags.map (line {}), Nests ({} : Limits).directiveDepth shown) ∧
      (renderAll {} closedTags).value =
        ['\n'].intercalate (closedTags.map fun tag => (renderAll {} [tag]).value) := by
  have firm : ∀ tag ∈ closedTags, Text.Firm (tag.render {}).value := by decide +kernel
  have nests : ∀ shown ∈ closedTags.map (line {}), Nests ({} : Limits).directiveDepth shown := by
    decide +kernel
  exact ⟨firm, nests, (tags_apart_exact {} closedTags firm).mpr (.inl nests)⟩

/-- A group that is left open in one tag keeps the group of the next from being resolved, which it
would be if that tag were alone. -/
theorem openTag_interferes :
    let tags : List BlockTag := [.unknown "@a \x7b".toList, .unknown "@b {x}".toList]
    (∀ tag ∈ tags, Text.Firm (tag.render {}).value) ∧
      (renderAll {} tags).value ≠
        ['\n'].intercalate (tags.map fun tag => (renderAll {} [tag]).value) := by
  constructor
  · decide +kernel
  · decide +kernel

end BlockTag

end CommentMarkdown
