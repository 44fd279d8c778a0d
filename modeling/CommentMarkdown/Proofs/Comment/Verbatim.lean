import CommentMarkdown.Proofs.Comment.Sections
import CommentMarkdown.Proofs.Directive.Concatenation

/-!
# Code that is shown as it was written

A literal and text inside a code element are both put between backticks without a change. The
clean-up of the section finds nothing to tidy between them, as long as the text stays on one
line. But it resolves directives there as everywhere, although what stands in code is no
directive: a text that holds a group loses its braces, and whatever makes up the head of the
group (`bracedCode_not_verbatim`).

So code is shown as it was written exactly if it opens no group or its groups do not nest
(`code_verbatim_exact`).
-/

namespace CommentMarkdown

open Directive (Nests)
open Markdown (codeSpan)

/-- Code on one line is as a finished section is to be: its backticks are what can be seen at its
ends, and there is no line break for anything to stand in front of. -/
theorem Text.normal_codeSpan {body : Text} (unbroken : '\n' ∉ body) : Normal (codeSpan body) := by
  have unbrokenSpan : '\n' ∉ codeSpan body := by
    intro member
    simp only [codeSpan, List.cons_append, List.mem_cons, List.mem_append, List.not_mem_nil,
      or_false] at member
    rcases member with mark | inside | mark
    · exact absurd mark (by decide)
    · exact unbroken inside
    · exact absurd mark (by decide)
  have last : (codeSpan body).getLast? = some '\x60' := by
    rw [codeSpan, List.getLast?_append_of_ne_nil _ (List.cons_ne_nil _ _)]
    rfl
  constructor
  · constructor
    · intro c first
      obtain rfl : '\x60' = c := Option.some.inj first
      decide
    · intro c ends
      rw [last] at ends
      obtain rfl : '\x60' = c := Option.some.inj ends
      decide
  · constructor
    · intro c _ inside
      exact unbrokenSpan (inside.subset (by simp))
    · intro inside
      exact unbrokenSpan (inside.subset (by simp))

/-- Backticks neither open a group nor close one. -/
theorem Directive.nests_codeSpan_iff (limit : Nat) (body : Text) :
    Nests limit (codeSpan body) ↔ Nests limit body := by
  rw [codeSpan, nests_concat_iff (by decide) (by decide), nests_cons_iff (by decide)]

/-- Directives between backticks are resolved as they are without them. -/
theorem Directive.value_replace_codeSpan (limits : Limits) (body : Text) :
    (replace limits .text (codeSpan body)).value = codeSpan (replace limits .text body).value := by
  by_cases nests : Nests limits.directiveDepth body
  · have mark : '{' ∉ ['\x60'] := by decide
    have nestsMark : Nests limits.directiveDepth ['\x60'] := .of_flat _ mark
    have nestsFront : Nests limits.directiveDepth ('\x60' :: body) :=
      (nests_cons_iff (by decide) _ _).mpr nests
    have front : (replace limits .text ('\x60' :: body)).value =
        '\x60' :: (replace limits .text body).value := by
      have parts := value_replace_append nestsMark nests .text
      rwa [replace_of_no_opening limits .text mark] at parts
    rw [codeSpan, value_replace_append nestsFront nestsMark, front,
      replace_of_no_opening limits .text mark]
    rfl
  · rw [value_replace_of_not_nests nests,
      value_replace_of_not_nests (mt (nests_codeSpan_iff _ body).mp nests)]

/-- Code on one line leaves the clean-up between its backticks, with its directives resolved. -/
theorem Markdown.cleaned_codeSpan (limits : Limits) {body : Text} (unbroken : '\n' ∉ body) :
    cleaned limits (codeSpan body) = codeSpan (Directive.replace limits .text body).value := by
  have tidy : Text.tidy (codeSpan body) = codeSpan body :=
    (Text.tidy_eq_self_iff _).mpr (Text.normal_codeSpan unbroken)
  rw [cleaned, normalize, tidy, Directive.value_replace_codeSpan]

namespace Node

/-- A literal is put between backticks as it is. -/
theorem draft_literal (limits : Limits) (body : Text) :
    draft limits [.literal body] = codeSpan body := by
  rw [draft, value_renderSequence_cons]
  exact List.append_nil _

/-- Text between open elements one of which shows code is kept as it is. -/
theorem value_render_text_of_code {opened : List Text} (inside : insideCode opened = true)
    (limits : Limits) (depth : Nat) (body : Text) :
    (render limits depth opened (.text body)).value = body :=
  if_pos inside

/-- Text in a code element is put between backticks as it is. -/
theorem draft_codeElement (limits : Limits) (body : Text) :
    draft limits [.start "code".toList, .text body, .finish "code".toList] = codeSpan body := by
  have opened : openBehind [] (.start "code".toList) = ["code".toList] := by decide
  have inside : insideCode ["code".toList] = true := by decide
  have front : (render limits 0 [] (.start "code".toList)).value = ['\x60'] := rfl
  have behind : (render limits 0 ["code".toList] (.finish "code".toList)).value = ['\x60'] := rfl
  rw [draft, value_renderSequence_cons, value_renderSequence_cons, value_renderSequence_cons,
    opened, front, value_render_text_of_code inside]
  change ['\x60'] ++ (body ++ ((render limits 0 ["code".toList] (.finish _)).value ++ [])) = _
  rw [behind]
  rfl

/-- A literal and text in a code element are shown alike: between backticks, with the directives
resolved as far as they nest. So text on one line is shown as it was written exactly if it
opens no group or its groups do not nest. -/
theorem code_verbatim_exact (limits : Limits) {body : Text} (unbroken : '\n' ∉ body) :
    let literal := (renderAll limits [.literal body]).value
    let element :=
      (renderAll limits [.start "code".toList, .text body, .finish "code".toList]).value
    literal = element ∧
      literal = codeSpan (Directive.replace limits .text body).value ∧
      (literal = codeSpan body ↔ (Nests limits.directiveDepth body → '{' ∉ body)) := by
  intro literal element
  have shown : literal = codeSpan (Directive.replace limits .text body).value := by
    rw [← Markdown.cleaned_codeSpan limits unbroken, ← draft_literal limits]
    exact value_renderAll limits _
  have shownElement : element = codeSpan (Directive.replace limits .text body).value := by
    rw [← Markdown.cleaned_codeSpan limits unbroken, ← draft_codeElement limits]
    exact value_renderAll limits _
  refine ⟨shown.trans shownElement.symm, shown, ?_⟩
  rw [shown, ← Directive.value_replace_eq_self_iff]
  constructor
  · intro same
    exact (List.append_inj' (List.cons.inj same).2 rfl).1
  · intro same
    rw [same]

/-- Code with blanks at its ends, an at sign, and a group in one that is not closed. -/
def unclosedCode : Text :=
  " if (x) \x7b y\x7b@z\x7d \t".toList

/-- Code whose groups do not nest is shown as it was written. -/
theorem unclosedCode_verbatim :
    '\n' ∉ unclosedCode ∧
      (renderAll {} [.literal unclosedCode]).value = codeSpan unclosedCode ∧
      (renderAll {}
          [.start "code".toList, .text unclosedCode, .finish "code".toList]).value =
        codeSpan unclosedCode := by
  have unbroken : '\n' ∉ unclosedCode := by decide
  obtain ⟨alike, _, verbatim⟩ := code_verbatim_exact {} unbroken
  have kept := verbatim.mpr (by decide +kernel)
  exact ⟨unbroken, kept, alike ▸ kept⟩

/-- Code that holds a group loses its braces, in a literal and in an element alike. -/
theorem bracedCode_not_verbatim :
    '\n' ∉ "{x}".toList ∧
      (renderAll {} [.literal "{x}".toList]).value ≠ codeSpan "{x}".toList ∧
      (renderAll {} [.start "code".toList, .text "{x}".toList, .finish "code".toList]).value ≠
        codeSpan "{x}".toList := by
  refine ⟨?_, ?_, ?_⟩ <;> decide +kernel

end Node

end CommentMarkdown
