import CommentMarkdown.Text.Basic

/-!
# Runs of characters

A rule about white space speaks of runs: as many characters of a kind side by side as there are.
`replaceRuns` puts something else in the place of each of them, and what that is may depend on
the run and on the text behind it. Characters between the runs stay as they are. What holds of
every text can be proved along its runs (`runInduction`).

A pass that looks at one character at a time, from the right, does the same if it leaves every
character between runs alone and makes of a whole run, in front of what it has made of the rest,
what the rule says (`replaceRuns_eq_foldr`).
-/

namespace CommentMarkdown.Text

/-- What stands behind the run that a text begins with goes on with another character. -/
theorem head?_behind_run (inRun : Char → Bool) (text : Text) :
    ∀ c ∈ (text.dropWhile inRun).head?, inRun c = false := by
  intro c first
  simpa [Option.mem_def.mp first] using List.head?_dropWhile_not inRun text

/-- A run is not followed by a character of its kind. -/
theorem head?_ne_of_ends {inRun : Char → Bool} {c : Char} (kind : inRun c = true) {behind : Text}
    (ends : ∀ d ∈ behind.head?, inRun d = false) : behind.head? ≠ some c := by
  intro first
  exact Bool.false_ne_true ((ends c first).symm.trans kind)

/-- A text begins with a run that is as long as it can be. -/
theorem exists_run (inRun : Char → Bool) (text : Text) :
    ∃ run behind : Text, text = run ++ behind ∧
      (∀ c ∈ run, inRun c = true) ∧ ∀ c ∈ behind.head?, inRun c = false :=
  ⟨text.takeWhile inRun, text.dropWhile inRun, List.takeWhile_append_dropWhile.symm,
    List.all_eq_true.mp List.all_takeWhile, head?_behind_run inRun text⟩

/-- The run that a text begins with is found where it ends. -/
theorem takeWhile_run {inRun : Char → Bool} {run behind : Text}
    (inside : ∀ c ∈ run, inRun c = true) (ends : ∀ c ∈ behind.head?, inRun c = false) :
    (run ++ behind).takeWhile inRun = run ∧ (run ++ behind).dropWhile inRun = behind := by
  rw [List.takeWhile_append_of_pos inside, List.dropWhile_append_of_pos inside]
  cases behind with
  | nil => exact ⟨List.append_nil run, rfl⟩
  | cons c rest =>
    have outside : ¬ inRun c = true := Bool.not_eq_true _ ▸ ends c rfl
    rw [List.takeWhile_cons_of_neg outside, List.dropWhile_cons_of_neg outside]
    exact ⟨List.append_nil run, rfl⟩

/-- The text with each maximal run of certain characters replaced. -/
def replaceRuns (inRun : Char → Bool) (replacement : Text → Text → Text) : Text → Text
  | [] => []
  | c :: rest =>
    if inRun c then
      replacement (c :: rest.takeWhile inRun) (rest.dropWhile inRun) ++
        replaceRuns inRun replacement (rest.dropWhile inRun)
    else c :: replaceRuns inRun replacement rest
termination_by text => text.length
decreasing_by
  · have shorter := (List.dropWhile_sublist inRun (l := rest)).length_le
    rw [List.length_cons]
    omega
  · rw [List.length_cons]
    omega

/-- Induction along the runs of a text. It is empty, or begins with a character between runs, or
begins with a run that is as long as it can be. -/
@[elab_as_elim]
theorem runInduction (inRun : Char → Bool) {motive : Text → Prop} (nil : motive [])
    (between : ∀ c rest, inRun c = false → motive rest → motive (c :: rest))
    (run : ∀ run behind, run ≠ [] → (∀ c ∈ run, inRun c = true) →
      (∀ c ∈ behind.head?, inRun c = false) → motive behind → motive (run ++ behind))
    (text : Text) : motive text := by
  induction text using replaceRuns.induct inRun with
  | case1 => exact nil
  | case2 c rest inside ih =>
    have whole : ∀ d ∈ c :: rest.takeWhile inRun, inRun d = true :=
      List.forall_mem_cons.mpr ⟨inside, List.all_eq_true.mp List.all_takeWhile⟩
    have parts : c :: rest = (c :: rest.takeWhile inRun) ++ rest.dropWhile inRun := by
      rw [List.cons_append, List.takeWhile_append_dropWhile]
    rw [parts]
    exact run _ _ (List.cons_ne_nil _ _) whole (head?_behind_run inRun rest) ih
  | case3 c rest outside ih =>
    exact between c rest (eq_false_of_ne_true outside) ih

/-- A character between runs stays. -/
theorem replaceRuns_cons {inRun : Char → Bool} (replacement : Text → Text → Text) {c : Char}
    (outside : inRun c = false) (rest : Text) :
    replaceRuns inRun replacement (c :: rest) = c :: replaceRuns inRun replacement rest := by
  rw [replaceRuns, outside, if_neg Bool.false_ne_true]

/-- A run that is as long as it can be is replaced as a whole. -/
theorem replaceRuns_append {inRun : Char → Bool} (replacement : Text → Text → Text)
    {run behind : Text} (nonempty : run ≠ []) (inside : ∀ c ∈ run, inRun c = true)
    (ends : ∀ c ∈ behind.head?, inRun c = false) :
    replaceRuns inRun replacement (run ++ behind) =
      replacement run behind ++ replaceRuns inRun replacement behind := by
  obtain ⟨c, rest, rfl⟩ := List.exists_cons_of_ne_nil nonempty
  obtain ⟨insideHere, insideRest⟩ := List.forall_mem_cons.mp inside
  obtain ⟨front, rear⟩ := takeWhile_run insideRest ends
  rw [List.cons_append, replaceRuns, if_pos insideHere, front, rear]

/-- A text that does not begin with a run keeps its first character. -/
theorem head?_replaceRuns {inRun : Char → Bool} (replacement : Text → Text → Text) {text : Text}
    (ends : ∀ c ∈ text.head?, inRun c = false) :
    (replaceRuns inRun replacement text).head? = text.head? := by
  cases text with
  | nil => rw [replaceRuns]
  | cons c rest =>
    rw [replaceRuns_cons replacement (ends c rfl), List.head?_cons, List.head?_cons]

/-- A pass from the right replaces runs if it keeps the characters between them and replaces each
run as a whole. The induction follows the runs, so a run meets what the pass has made of the text
behind it. -/
theorem replaceRuns_eq_foldr {inRun : Char → Bool} {replacement : Text → Text → Text}
    {step : Char → Text → Text}
    (between : ∀ c following, inRun c = false → step c following = c :: following)
    (whole : ∀ run behind, run ≠ [] → (∀ c ∈ run, inRun c = true) →
      (∀ c ∈ behind.head?, inRun c = false) →
        run.foldr step (behind.foldr step []) = replacement run behind ++ behind.foldr step [])
    (text : Text) : replaceRuns inRun replacement text = text.foldr step [] := by
  induction text using runInduction inRun with
  | nil => rw [replaceRuns, List.foldr_nil]
  | between c rest outside ih =>
    rw [replaceRuns_cons replacement outside, ih, List.foldr_cons, between c _ outside]
  | run run behind nonempty inside ends ih =>
    rw [replaceRuns_append replacement nonempty inside ends, ih, List.foldr_append,
      whole run behind nonempty inside ends]

/-- Such a pass keeps the first character of a text that does not begin with a run. -/
theorem head?_foldr_of_between {inRun : Char → Bool} {step : Char → Text → Text}
    (between : ∀ c following, inRun c = false → step c following = c :: following)
    {behind : Text} (ends : ∀ c ∈ behind.head?, inRun c = false) :
    (behind.foldr step []).head? = behind.head? := by
  cases behind with
  | nil => rfl
  | cons c rest => rw [List.foldr_cons, between c _ (ends c rfl), List.head?_cons, List.head?_cons]

/-- A pass from the right adds no character if it puts each one in front or leaves it out. -/
theorem foldr_sublist {step : Char → Text → Text}
    (either : ∀ c rest, step c rest = c :: rest ∨ step c rest = rest) (text : Text) :
    (text.foldr step []).Sublist text := by
  induction text with
  | nil => exact List.Sublist.slnil
  | cons c rest ih =>
    rw [List.foldr_cons]
    rcases either c (rest.foldr step []) with kept | dropped
    · rw [kept]
      exact ih.cons_cons c
    · rw [dropped]
      exact ih.cons c

end CommentMarkdown.Text
