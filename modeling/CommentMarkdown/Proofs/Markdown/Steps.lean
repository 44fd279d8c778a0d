import CommentMarkdown.Markdown.Normal
import CommentMarkdown.Proofs.Text.Runs
import CommentMarkdown.Proofs.Text.Tidiness

/-!
# The clean-up in three steps

Tidying goes over a text once. What it does can be said in three steps, each of which goes over
the whole text before the next begins: trim it, take out the blanks in front of line breaks,
then leave two line breaks of every longer run. The second step has a part in the third, since
line breaks with nothing but blanks between them become one run. Tidying sees such a run all
the same, because it looks at a character together with what is left of the text behind it.

The two later steps are passes from the right as well (`dropTrailing_eq_foldr`,
`limitBreaks_eq_foldr`), and one pass does the work of both (`consTidy_foldr_consBreak`).
-/

namespace CommentMarkdown

namespace Text

/-- The text without the blanks and tabs that stand directly in front of a line break. -/
def dropTrailing : Text → Text :=
  replaceRuns isSpacing fun run behind => if behind.head? = some '\n' then [] else run

/-- The text with two line breaks in the place of three or more in a row. -/
def limitBreaks : Text → Text :=
  replaceRuns (· == '\n') fun run _ => if 3 ≤ run.length then ['\n', '\n'] else run

/-- The text tidied step by step. -/
def tidyInSteps (text : Text) : Text :=
  limitBreaks (dropTrailing (trim text))

/-- Puts a character in front of a text, unless it is blank and a line break would follow it. -/
def consSpacing (c : Char) (rest : Text) : Text :=
  if isSpacing c ∧ rest.head? = some '\n' then rest else c :: rest

/-- Puts a character in front of a text, unless it is a third line break. -/
def consBreak (c : Char) (rest : Text) : Text :=
  if c = '\n' ∧ rest.take 2 = ['\n', '\n'] then rest else c :: rest

/-- All blanks of a run are left out if a line break follows the run, and none otherwise. -/
theorem foldr_consSpacing_run {run : Text} (blank : ∀ c ∈ run, isSpacing c = true) (rest : Text) :
    run.foldr consSpacing rest = (if rest.head? = some '\n' then [] else run) ++ rest := by
  induction run with
  | nil => rw [List.foldr_nil, ite_self, List.nil_append]
  | cons c run ih =>
    obtain ⟨blankHere, blankBehind⟩ := List.forall_mem_cons.mp blank
    rw [List.foldr_cons, ih blankBehind, consSpacing]
    by_cases breaks : rest.head? = some '\n'
    · rw [if_pos breaks, if_pos breaks, List.nil_append, if_pos ⟨blankHere, breaks⟩]
    · have noBreak : (run ++ rest).head? ≠ some '\n' := by
        cases run with
        | nil => exact breaks
        | cons d run =>
          intro first
          obtain rfl : d = '\n' := Option.some.inj first
          exact absurd (blankBehind '\n' List.mem_cons_self) (by decide)
      rw [if_neg breaks, if_neg breaks, if_neg fun trailing => noBreak trailing.2, List.cons_append]

/-- Line breaks in front of a text add to those that it begins with. -/
theorem breaks_run_append {run : Text} (broken : ∀ c ∈ run, c = '\n') (rest : Text) :
    breaks (run ++ rest) = run.length + breaks rest := by
  induction run with
  | nil => rw [List.nil_append, List.length_nil, Nat.zero_add]
  | cons c run ih =>
    obtain ⟨rfl, brokenBehind⟩ := List.forall_mem_cons.mp broken
    rw [List.cons_append, breaks, if_pos rfl, ih brokenBehind, List.length_cons]
    omega

/-- A line break is left out in front of two. -/
theorem consBreak_break (rest : Text) :
    consBreak '\n' rest = if 2 ≤ breaks rest then rest else '\n' :: rest := by
  simp only [consBreak, take_two_eq_breaks_iff, true_and]

/-- Two line breaks are left of a run of three or more, and a shorter run is left as it is. -/
theorem foldr_consBreak_run {run : Text} (broken : ∀ c ∈ run, c = '\n') {rest : Text}
    (ends : rest.head? ≠ some '\n') :
    run.foldr consBreak rest = (if 3 ≤ run.length then ['\n', '\n'] else run) ++ rest := by
  have noBreak : breaks rest = 0 := by
    rw [Ne, head?_eq_break_iff] at ends
    exact Nat.eq_zero_of_not_pos ends
  induction run with
  | nil => rfl
  | cons c run ih =>
    obtain ⟨rfl, brokenBehind⟩ := List.forall_mem_cons.mp broken
    rw [List.foldr_cons, ih brokenBehind, consBreak_break, List.length_cons]
    by_cases long : 3 ≤ run.length
    · have gap : 2 ≤ breaks (['\n', '\n'] ++ rest) := by
        rw [breaks_run_append (by simp), noBreak]
        decide
      rw [if_pos long, if_pos gap, if_pos (by omega)]
    · rw [if_neg long, breaks_run_append brokenBehind, noBreak]
      by_cases two : run.length = 2
      · have pair : run = ['\n', '\n'] := List.eq_replicate_iff.mpr ⟨two, brokenBehind⟩
        rw [if_pos (by omega), if_pos (by omega), pair]
      · rw [if_neg (by omega), if_neg (by omega), List.cons_append]

/-- Leaving out the blanks in front of line breaks is a pass from the right. -/
theorem dropTrailing_eq_foldr (text : Text) : dropTrailing text = text.foldr consSpacing [] := by
  have between (c : Char) (following : Text) (seen : isSpacing c = false) :
      consSpacing c following = c :: following := by
    rw [consSpacing, seen, if_neg fun trailing => Bool.false_ne_true trailing.1]
  apply replaceRuns_eq_foldr between
  intro run behind _ blank ends
  rw [foldr_consSpacing_run blank, head?_foldr_of_between between ends]

/-- Leaving two line breaks of every longer run is a pass from the right. -/
theorem limitBreaks_eq_foldr (text : Text) : limitBreaks text = text.foldr consBreak [] := by
  have between (c : Char) (following : Text) (seen : (c == '\n') = false) :
      consBreak c following = c :: following := by
    rw [consBreak, if_neg fun gap => beq_eq_false_iff_ne.mp seen gap.1]
  apply replaceRuns_eq_foldr between
  intro run behind _ broken ends
  have noBreak : (behind.foldr consBreak []).head? ≠ some '\n' := by
    rw [head?_foldr_of_between between ends]
    exact head?_ne_of_ends (by decide) ends
  exact foldr_consBreak_run (fun c member => beq_iff_eq.mp (broken c member)) noBreak

/-- Limiting line breaks leaves the first character of a text. -/
theorem head?_foldr_consBreak (text : Text) : (text.foldr consBreak []).head? = text.head? := by
  cases text with
  | nil => rfl
  | cons c rest =>
    rw [List.foldr_cons, consBreak]
    split
    next gap =>
      have first := congrArg List.head? gap.2
      rw [List.head?_take, if_neg (by decide)] at first
      rw [first, gap.1]
      rfl
    next => rfl

/-- What tidying does with a character is what the two later steps do with it, one behind the
other. -/
theorem consTidy_foldr_consBreak (c : Char) (rest : Text) :
    consTidy c (rest.foldr consBreak []) = (consSpacing c rest).foldr consBreak [] := by
  rw [consTidy, consSpacing, head?_foldr_consBreak]
  by_cases trailing : isSpacing c = true ∧ rest.head? = some '\n'
  · rw [if_pos trailing, if_pos trailing]
  · rw [if_neg trailing, if_neg trailing, List.foldr_cons, consBreak]

/-- Tidying in one pass is tidying step by step. -/
theorem tidy_eq_tidyInSteps (text : Text) : tidy text = tidyInSteps text := by
  rw [tidyInSteps, limitBreaks_eq_foldr, dropTrailing_eq_foldr]
  calc (trim text).foldr consTidy []
      = (trim text).foldr consTidy (List.foldr consBreak [] []) := rfl
    _ = ((trim text).foldr consSpacing []).foldr consBreak [] :=
        List.foldr_hom _ consTidy_foldr_consBreak

end Text

namespace Markdown

/-- The clean-up of a section resolves the directives of the text that the three steps leave, the
first of which cuts off white space until none is left at the ends. The steps change nothing in
a text that they have been through, which has no white space at its ends, no blank in front of
a line break and no three line breaks in a row. -/
theorem normalize_in_steps (limits : Limits) (text : Text) :
    normalize limits text = Directive.replace limits .text (Text.tidyInSteps text) ∧
      (∃ front behind, text = front ++ Text.trim text ++ behind ∧
        Text.isBlank front = true ∧ Text.isBlank behind = true ∧ Text.Trimmed (Text.trim text)) ∧
      Text.tidyInSteps (Text.tidyInSteps text) = Text.tidyInSteps text ∧
      Text.Normal (Text.tidyInSteps text) := by
  have normal : Text.Normal (Text.tidyInSteps text) :=
    Text.tidy_eq_tidyInSteps text ▸ Text.normal_tidy text
  refine ⟨?_, ?_, ?_, normal⟩
  · rw [normalize, Text.tidy_eq_tidyInSteps]
  · obtain ⟨front, behind, parts, blankFront, blankBehind⟩ := Text.exists_blank_around_trim text
    exact ⟨front, behind, parts, blankFront, blankBehind, Text.trimmed_trim text⟩
  · rw [← Text.tidy_eq_tidyInSteps (Text.tidyInSteps text)]
    exact (Text.tidy_eq_self_iff _).mpr normal

end Markdown

end CommentMarkdown
