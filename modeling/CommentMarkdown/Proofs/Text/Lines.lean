import CommentMarkdown.Proofs.Text.Tidiness

/-!
# Tidying lines together

Tidying looks at a character together with what follows it, so lines that are joined could
meddle with each other. They do not if each of them can be seen at both ends: what ends a
line is then never left out, and it keeps whatever stands in front of it from the line break
behind. So such lines may as well be tidied one by one (`tidy_intercalate`).
-/

namespace CommentMarkdown.Text

/-- What is put behind a text that ends with something that can be seen does not matter to a
character in front of it. -/
theorem consTidy_append (c : Char) {first : Text} (nonempty : first ≠ [])
    (ends : ∀ d ∈ first.getLast?, isSpace d = false) (second : Text) :
    consTidy c (first ++ second) = consTidy c first ++ second := by
  rw [consTidy_eq, consTidy_eq, breaks_append nonempty ends]
  split <;> rfl

/-- Making a text neat leaves something of it, its last character at least. -/
theorem foldr_consTidy_ne_nil {text : Text} (nonempty : text ≠ []) :
    text.foldr consTidy [] ≠ [] := by
  intro empty
  have last := getLast?_foldr_consTidy text
  rw [empty] at last
  exact nonempty (List.getLast?_eq_none_iff.mp last.symm)

/-- A text that ends with something that can be seen is made neat by itself, whatever follows. -/
theorem foldr_consTidy_append {first : Text} (nonempty : first ≠ [])
    (ends : ∀ c ∈ first.getLast?, isSpace c = false) (second : Text) :
    first.foldr consTidy second = first.foldr consTidy [] ++ second := by
  induction first with
  | nil => exact absurd rfl nonempty
  | cons c rest ih =>
    cases rest with
    | nil =>
      have fits : ∀ following, Fits c following := fits_of_not_space (ends c rfl)
      simp only [List.foldr_cons, List.foldr_nil, consTidy_eq, if_pos (fits _)]
      rfl
    | cons d rest =>
      have endsRest : ∀ e ∈ (d :: rest).getLast?, isSpace e = false := by
        rwa [List.getLast?_cons_cons] at ends
      have endsKept : ∀ e ∈ ((d :: rest).foldr consTidy []).getLast?, isSpace e = false := by
        rwa [getLast?_foldr_consTidy]
      have kept := foldr_consTidy_ne_nil (List.cons_ne_nil d rest)
      change consTidy c ((d :: rest).foldr consTidy second) =
        consTidy c ((d :: rest).foldr consTidy []) ++ second
      rw [ih (List.cons_ne_nil d rest) endsRest, consTidy_append c kept endsKept]

/-- Tidying a text that can be seen at both ends only makes it neat. -/
theorem tidy_of_firm {text : Text} (firm : Firm text) : tidy text = text.foldr consTidy [] := by
  rw [tidy, trim_of_trimmed firm.toTrimmed]

/-- Tidying leaves the ends of a text that can be seen there. -/
theorem Firm.tidy {text : Text} (firm : Firm text) : Firm (Text.tidy text) where
  toTrimmed := (normal_tidy text).toTrimmed
  nonempty := by
    rw [tidy_of_firm firm]
    exact foldr_consTidy_ne_nil firm.nonempty

/-- Two texts that can be seen at both ends, with a line break between them, are tidied one by
one. -/
theorem tidy_append_break {first second : Text} (firm : Firm first) (firmSecond : Firm second) :
    tidy (first ++ (['\n'] ++ second)) = tidy first ++ (['\n'] ++ tidy second) := by
  have whole : Firm (first ++ (['\n'] ++ second)) := firm.append firmSecond ['\n']
  have fits : Fits '\n' (breaks (tidy second)) := by
    rw [firmSecond.tidy.breaks_eq_zero]
    decide
  have behind : (['\n'] ++ second).foldr consTidy [] = ['\n'] ++ tidy second := by
    rw [List.singleton_append, List.foldr_cons, ← tidy_of_firm firmSecond, consTidy_eq, if_pos fits]
    rfl
  rw [tidy_of_firm whole, List.foldr_append, behind,
    foldr_consTidy_append firm.nonempty firm.last, ← tidy_of_firm firm]

/-- Lines that can be seen at both ends make up a text that can, and are tidied one by one. -/
theorem firm_tidy_intercalate (first : Text) (rest : List Text)
    (firm : ∀ line ∈ first :: rest, Firm line) :
    Firm (['\n'].intercalate (first :: rest)) ∧
      tidy (['\n'].intercalate (first :: rest)) =
        ['\n'].intercalate ((first :: rest).map tidy) := by
  induction rest generalizing first with
  | nil => simpa [List.intercalate] using firm
  | cons second rest ih =>
    obtain ⟨firmFirst, firmRest⟩ := List.forall_mem_cons.mp firm
    obtain ⟨firmBehind, behind⟩ := ih second firmRest
    rw [List.intercalate_cons_cons, List.map_cons, List.map_cons, List.intercalate_cons_cons,
      List.append_assoc, List.append_assoc]
    constructor
    · exact firmFirst.append firmBehind ['\n']
    · rw [tidy_append_break firmFirst firmBehind, behind]
      rfl

/-- Lines that can be seen at both ends are tidied one by one. -/
theorem tidy_intercalate {lines : List Text} (firm : ∀ line ∈ lines, Firm line) :
    tidy (['\n'].intercalate lines) = ['\n'].intercalate (lines.map tidy) := by
  cases lines with
  | nil => rfl
  | cons first rest => exact (firm_tidy_intercalate first rest firm).2

end CommentMarkdown.Text
