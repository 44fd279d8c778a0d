import CommentMarkdown.Proofs.Text.Runs
import CommentMarkdown.Proofs.Text.Tidiness

/-!
# Collapsed white space

Collapsing looks at each run of white space once. What it does can be said in two steps, each of
which goes over the whole text before the next begins: one blank takes the place of a run with a
line break in it, then one blank takes the place of several side by side. The steps do not get in
each other's way. A blank that the first one makes stands where a run has been that was as long
as it can be, so there is no white space next to it for the second one to merge it with.

No line break is left, and no two blanks side by side; a text without either is collapsed already
(`collapse_eq_self_iff`). Tabs and the other kinds of white space stay where no line break stands
in their run, so a tab may still stand next to a blank.
-/

namespace CommentMarkdown.Text

/-- Text without line breaks and without two blanks side by side. -/
structure Collapsed (text : Text) : Prop where
  noBreak : '\n' ∉ text
  noPair : ¬ [' ', ' '] <:+: text

/-- The text with one blank in the place of each run of white space that has a line break in it. -/
def joinLines : Text → Text :=
  replaceRuns isSpace fun run _ => if '\n' ∈ run then [' '] else run

/-- The text with one blank in the place of each run of two or more. -/
def mergeBlanks : Text → Text :=
  replaceRuns (· == ' ') fun run _ => if 2 ≤ run.length then [' '] else run

/-- White space in front of a text belongs to the run that is being read. -/
theorem collapseAfter_append {run : Text} (white : ∀ c ∈ run, isSpace c = true)
    (before behind : Text) :
    collapseAfter before (run ++ behind) = collapseAfter (run.reverse ++ before) behind := by
  induction run generalizing before with
  | nil => rfl
  | cons c run ih =>
    obtain ⟨whiteHere, whiteRun⟩ := List.forall_mem_cons.mp white
    rw [List.cons_append, collapseAfter, if_pos whiteHere, ih whiteRun, List.reverse_cons,
      List.append_assoc, List.singleton_append]

/-- A run ends where the text goes on with something that can be seen. -/
theorem collapseAfter_of_ends (before : Text) {behind : Text}
    (ends : ∀ c ∈ behind.head?, isSpace c = false) :
    collapseAfter before behind = collapseRun before.reverse ++ collapse behind := by
  cases behind with
  | nil => exact (List.append_nil _).symm
  | cons c rest =>
    have seen : ¬ isSpace c = true := Bool.not_eq_true _ ▸ ends c rfl
    rw [collapse, collapseAfter, collapseAfter, if_neg seen, if_neg seen]
    rfl

/-- What can be seen stays. -/
theorem collapse_cons {c : Char} (seen : isSpace c = false) (rest : Text) :
    collapse (c :: rest) = c :: collapse rest := by
  rw [collapse, collapseAfter, seen, if_neg Bool.false_ne_true]
  rfl

/-- Runs are collapsed one by one. -/
theorem collapse_append {run behind : Text} (white : ∀ c ∈ run, isSpace c = true)
    (ends : ∀ c ∈ behind.head?, isSpace c = false) :
    collapse (run ++ behind) = collapseRun run ++ collapse behind := by
  rw [collapse, collapseAfter_append white, List.append_nil, collapseAfter_of_ends _ ends,
    List.reverse_reverse]

/-- Merging blanks keeps every other character. -/
theorem consBlank_of_ne {c : Char} (other : c ≠ ' ') (rest : Text) :
    consBlank c rest = c :: rest :=
  if_neg fun merged => other merged.1

/-- Merging blanks keeps what does not stand in front of a blank. -/
theorem consBlank_of_apart {rest : Text} (apart : rest.head? ≠ some ' ') (c : Char) :
    consBlank c rest = c :: rest :=
  if_neg fun merged => apart merged.2

/-- Merging blanks leaves the first character of a text. -/
theorem head?_foldr_consBlank (text : Text) : (text.foldr consBlank []).head? = text.head? := by
  cases text with
  | nil => rfl
  | cons c rest =>
    rw [List.foldr_cons, consBlank]
    split
    next merged => rw [merged.2, merged.1, List.head?_cons]
    next => rfl

/-- In front of a text that does not begin with a blank, the blanks of a run are merged among
themselves. -/
theorem foldr_consBlank_append (run : Text) {following : Text}
    (apart : following.head? ≠ some ' ') :
    run.foldr consBlank following = run.foldr consBlank [] ++ following := by
  induction run with
  | nil => rfl
  | cons c run ih =>
    rw [List.foldr_cons, List.foldr_cons, ih]
    cases run.foldr consBlank [] with
    | nil =>
      have alone : ([] : Text).head? ≠ some ' ' := by decide
      rw [List.nil_append, consBlank_of_apart apart, consBlank_of_apart alone, List.singleton_append]
    | cons d rest =>
      rw [consBlank, consBlank, List.cons_append, List.head?_cons, List.head?_cons]
      split
      next => rfl
      next => rfl

/-- One blank is left of a run of blanks. -/
theorem foldr_consBlank_blanks {run : Text} (nonempty : run ≠ []) (blanks : ∀ c ∈ run, c = ' ') :
    run.foldr consBlank [] = [' '] := by
  induction run with
  | nil => exact absurd rfl nonempty
  | cons c run ih =>
    obtain ⟨rfl, blanksBehind⟩ := List.forall_mem_cons.mp blanks
    rw [List.foldr_cons]
    by_cases last : run = []
    · rw [last]
      rfl
    · rw [ih last blanksBehind]
      rfl

/-- Merging blanks is a pass from the right. -/
theorem mergeBlanks_eq_foldr (text : Text) : mergeBlanks text = text.foldr consBlank [] := by
  have between (c : Char) (following : Text) (other : (c == ' ') = false) :
      consBlank c following = c :: following := consBlank_of_ne (beq_eq_false_iff_ne.mp other) _
  apply replaceRuns_eq_foldr between
  intro run behind nonempty inRun ends
  have blanks : ∀ c ∈ run, c = ' ' := fun c member => beq_iff_eq.mp (inRun c member)
  have apart : (behind.foldr consBlank []).head? ≠ some ' ' := by
    rw [head?_foldr_consBlank]
    exact head?_ne_of_ends (by decide) ends
  rw [foldr_consBlank_append run apart, foldr_consBlank_blanks nonempty blanks]
  by_cases several : 2 ≤ run.length
  · rw [if_pos several]
  · have positive : 0 < run.length := List.length_pos_iff.mpr nonempty
    have single : run = List.replicate 1 ' ' := List.eq_replicate_iff.mpr ⟨by omega, blanks⟩
    rw [if_neg several, single]
    rfl

/-- Collapsing in one pass is collapsing step by step. Behind a run stands nothing that is white
space, so the second step treats what the first has made of the run as a run of its own. -/
theorem collapse_eq_mergeBlanks_joinLines (text : Text) :
    collapse text = mergeBlanks (joinLines text) := by
  rw [mergeBlanks_eq_foldr]
  induction text using runInduction isSpace with
  | nil =>
    rw [joinLines, replaceRuns]
    rfl
  | between c rest seen ih =>
    have other : c ≠ ' ' := by
      rintro rfl
      exact absurd seen (by decide)
    rw [collapse_cons seen, ih, joinLines, replaceRuns_cons _ seen, List.foldr_cons,
      consBlank_of_ne other]
  | run run behind nonempty white ends ih =>
    have apart : ((joinLines behind).foldr consBlank []).head? ≠ some ' ' := by
      rw [head?_foldr_consBlank, joinLines, head?_replaceRuns _ ends]
      exact head?_ne_of_ends (by decide) ends
    have alone : collapseRun run =
        (if '\n' ∈ run then [' '] else run).foldr consBlank [] := by
      rw [collapseRun]
      split
      next => rfl
      next => rfl
    rw [collapse_append white ends, ih, alone, ← foldr_consBlank_append _ apart, ← List.foldr_append,
      joinLines, replaceRuns_append _ nonempty white ends]

/-- Merging blanks adds no character. -/
theorem foldr_consBlank_sublist (text : Text) : (text.foldr consBlank []).Sublist text := by
  apply foldr_sublist
  intro c rest
  unfold consBlank
  split
  next => exact .inr rfl
  next => exact .inl rfl

/-- Two blanks stand side by side at the beginning of a text or further behind. -/
theorem pair_infix_cons_iff (c : Char) (rest : Text) :
    [' ', ' '] <:+: c :: rest ↔ (c = ' ' ∧ rest.head? = some ' ') ∨ [' ', ' '] <:+: rest := by
  have follows : [' '] <+: rest ↔ rest.head? = some ' ' := by
    cases rest <;> simp [List.cons_prefix_cons, eq_comm]
  rw [List.infix_cons_iff, List.cons_prefix_cons, follows, eq_comm]

/-- Merging leaves no two blanks side by side. -/
theorem noPair_foldr_consBlank (text : Text) : ¬ [' ', ' '] <:+: text.foldr consBlank [] := by
  induction text with
  | nil => exact fun inside => nomatch List.infix_nil.mp inside
  | cons c rest ih =>
    rw [List.foldr_cons, consBlank]
    split
    next => exact ih
    next apart => exact fun inside => ((pair_infix_cons_iff c _).mp inside).elim apart ih

/-- Where no two blanks stand side by side, there is nothing to merge. -/
theorem foldr_consBlank_of_noPair {text : Text} (noPair : ¬ [' ', ' '] <:+: text) :
    text.foldr consBlank [] = text := by
  induction text with
  | nil => rfl
  | cons c rest ih =>
    obtain ⟨apart, noPairRest⟩ := not_or.mp (mt (pair_infix_cons_iff c rest).mpr noPair)
    rw [List.foldr_cons, ih noPairRest]
    exact if_neg apart

/-- Where no line breaks, there is nothing to join. -/
theorem joinLines_of_noBreak {text : Text} (noBreak : '\n' ∉ text) : joinLines text = text := by
  rw [joinLines]
  induction text using runInduction isSpace with
  | nil => rw [replaceRuns]
  | between c rest seen ih =>
    rw [replaceRuns_cons _ seen, ih (List.not_mem_of_not_mem_cons noBreak)]
  | run run behind nonempty white ends ih =>
    obtain ⟨noBreakRun, noBreakBehind⟩ := not_or.mp (mt List.mem_append.mpr noBreak)
    rw [replaceRuns_append _ nonempty white ends, if_neg noBreakRun, ih noBreakBehind]

/-- Joined text has no line breaks. -/
theorem break_not_mem_joinLines (text : Text) : '\n' ∉ joinLines text := by
  rw [joinLines]
  induction text using runInduction isSpace with
  | nil =>
    rw [replaceRuns]
    exact List.not_mem_nil
  | between c rest seen ih =>
    rw [replaceRuns_cons _ seen]
    refine List.not_mem_cons_of_ne_of_not_mem ?_ ih
    rintro rfl
    exact absurd seen (by decide)
  | run run behind nonempty white ends ih =>
    rw [replaceRuns_append _ nonempty white ends, List.mem_append, not_or]
    refine ⟨?_, ih⟩
    split
    next => decide
    next noBreak => exact noBreak

/-- Collapsed text has neither line breaks nor two blanks side by side. -/
theorem collapsed_collapse (text : Text) : Collapsed (collapse text) := by
  rw [collapse_eq_mergeBlanks_joinLines, mergeBlanks_eq_foldr]
  exact
    { noBreak := fun member =>
        break_not_mem_joinLines text ((foldr_consBlank_sublist _).subset member)
      noPair := noPair_foldr_consBlank _ }

/-- Collapsing changes nothing exactly in a text without line breaks and without two blanks side by
side. -/
theorem collapse_eq_self_iff (text : Text) : collapse text = text ↔ Collapsed text := by
  constructor
  · intro same
    exact same ▸ collapsed_collapse text
  · intro collapsed
    rw [collapse_eq_mergeBlanks_joinLines, joinLines_of_noBreak collapsed.noBreak,
      mergeBlanks_eq_foldr, foldr_consBlank_of_noPair collapsed.noPair]

/-- Of a run of white space nothing can be seen, and neither can anything of what it becomes. -/
theorem isBlank_collapseRun {run : Text} (white : ∀ c ∈ run, isSpace c = true) :
    isBlank (collapseRun run) = true := by
  rw [collapseRun]
  split
  next => decide
  next =>
    exact List.all_eq_true.mpr fun c member => white c ((foldr_consBlank_sublist run).subset member)

/-- Collapsing takes away nothing that can be seen. -/
theorem visible_collapse (text : Text) : visible (collapse text) = visible text := by
  induction text using runInduction isSpace with
  | nil => rfl
  | between c rest seen ih =>
    rw [collapse_cons seen, ← List.singleton_append, visible_append, ih, ← visible_append,
      List.singleton_append]
  | run run behind nonempty white ends ih =>
    rw [collapse_append white ends, visible_append, visible_append, ih,
      visible_of_blank (isBlank_collapseRun white),
      visible_of_blank (List.all_eq_true.mpr white)]

/-- Prose is collapsed in two steps: each run of white space with a line break in it becomes one
blank, then each run of blanks becomes one. What is left has neither line breaks nor two blanks
side by side, shows what the prose shows, and is not collapsed any further. -/
theorem collapse_in_steps (text : Text) :
    collapse text = mergeBlanks (joinLines text) ∧
      '\n' ∉ collapse text ∧
      ¬ [' ', ' '] <:+: collapse text ∧
      visible (collapse text) = visible text ∧
      collapse (collapse text) = collapse text := by
  have collapsed : Collapsed (collapse text) := collapsed_collapse text
  exact ⟨collapse_eq_mergeBlanks_joinLines text, collapsed.noBreak, collapsed.noPair,
    visible_collapse text, (collapse_eq_self_iff _).mpr collapsed⟩

example : collapse "a \t  b \r\n c".toList = "a \t b c".toList := by decide

end CommentMarkdown.Text
