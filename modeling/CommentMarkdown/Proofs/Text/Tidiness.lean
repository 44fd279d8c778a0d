import CommentMarkdown.Proofs.Text.Runs
import CommentMarkdown.Text.Whitespace
import Mathlib.Data.List.DropRight

/-!
# Tidy text

Tidy text begins and ends with something that can be seen, has nothing blank at the end of
a line and never more than one empty line in a row. `tidy` makes any text so
(`normal_tidy`) and changes nothing in a text that is so already (`tidy_eq_self_iff`).

Whether a character may stand in front of a text depends on one number only: how many line
breaks the text begins with (`neat_cons_iff`).
-/

namespace CommentMarkdown.Text

/-- No white space at the two ends. -/
structure Trimmed (text : Text) : Prop where
  first : ∀ c ∈ text.head?, isSpace c = false
  last : ∀ c ∈ text.getLast?, isSpace c = false

/-- No blank and no tab in front of a line break, and no three line breaks in a row. -/
structure Neat (text : Text) : Prop where
  noTrailing : ∀ c, isSpacing c = true → ¬ [c, '\n'] <:+: text
  noGap : ¬ ['\n', '\n', '\n'] <:+: text

/-- Text as a finished section is to be. -/
structure Normal (text : Text) : Prop extends Trimmed text, Neat text

/-- Text with something that can be seen at its two ends. -/
structure Firm (text : Text) : Prop extends Trimmed text where
  nonempty : text ≠ []

/-- Whether a text is trimmed can be seen from its first and its last character. -/
theorem trimmed_iff (text : Text) :
    Trimmed text ↔
      text.head?.all (fun c => !isSpace c) ∧ text.getLast?.all (fun c => !isSpace c) := by
  simp only [Option.all_eq_true, Bool.not_eq_true']
  exact ⟨fun trimmed => ⟨trimmed.first, trimmed.last⟩, fun ⟨first, last⟩ => ⟨first, last⟩⟩

instance (text : Text) : Decidable (Trimmed text) :=
  decidable_of_iff _ (trimmed_iff text).symm

instance (text : Text) : Decidable (Firm text) :=
  decidable_of_iff (Trimmed text ∧ text ≠ [])
    ⟨fun ⟨trimmed, nonempty⟩ => { trimmed with nonempty },
      fun firm => ⟨firm.toTrimmed, firm.nonempty⟩⟩

/-- The number of line breaks that a text begins with. -/
def breaks : Text → Nat
  | [] => 0
  | c :: rest => if c = '\n' then breaks rest + 1 else 0

/-- A character may stand in front of a text that begins with so many line breaks. -/
def Fits (c : Char) (following : Nat) : Prop :=
  (isSpacing c = true → following = 0) ∧ (c = '\n' → following < 2)

instance (c : Char) (following : Nat) : Decidable (Fits c following) :=
  inferInstanceAs (Decidable (_ ∧ _))

/-- A text begins with a line break exactly if the number of those is positive. -/
theorem head?_eq_break_iff (text : Text) : text.head? = some '\n' ↔ 0 < breaks text := by
  cases text with
  | nil => simp [breaks]
  | cons c rest => by_cases same : c = '\n' <;> simp [breaks, same]

/-- A text begins with two line breaks exactly if their number is at least two. -/
theorem take_two_eq_breaks_iff (text : Text) :
    text.take 2 = ['\n', '\n'] ↔ 2 ≤ breaks text := by
  cases text with
  | nil => simp [breaks]
  | cons c rest =>
    by_cases same : c = '\n'
    · have behind := head?_eq_break_iff rest
      cases rest with
      | nil => simp [breaks, same]
      | cons d rest => by_cases next : d = '\n' <;> simp [breaks, same, next]
    · simp [breaks, same]

/-- Nothing but the line breaks that a text begins with decides about a character in front of
it. -/
theorem not_fits_iff (c : Char) (rest : Text) :
    ¬ Fits c (breaks rest) ↔
      (isSpacing c = true ∧ rest.head? = some '\n') ∨ (c = '\n' ∧ rest.take 2 = ['\n', '\n']) := by
  rw [head?_eq_break_iff, take_two_eq_breaks_iff, Fits, Classical.not_and_iff_not_or_not,
    Classical.not_imp, Classical.not_imp, Nat.not_lt, Nat.pos_iff_ne_zero]

/-- A character is left out where it does not fit. -/
theorem consTidy_eq (c : Char) (rest : Text) :
    consTidy c rest = if Fits c (breaks rest) then c :: rest else rest := by
  unfold consTidy
  by_cases fits : Fits c (breaks rest)
  · have free := (not_congr (not_fits_iff c rest)).mp (not_not_intro fits)
    obtain ⟨noTrailing, noGap⟩ := not_or.mp free
    rw [if_pos fits, if_neg noTrailing, if_neg noGap]
  · rw [if_neg fits]
    rcases (not_fits_iff c rest).mp fits with trailing | gap
    · rw [if_pos trailing]
    · rw [if_pos gap, ite_self]

/-- What is not white space fits everywhere. -/
theorem fits_of_not_space {c : Char} (seen : isSpace c = false) (following : Nat) :
    Fits c following := by
  constructor
  · intro spacing
    simp only [isSpacing, isSpace, Bool.or_eq_true, Bool.or_eq_false_iff] at spacing seen
    simp_all
  · rintro rfl
    exact absurd seen (by decide)

theorem neat_nil : Neat [] where
  noTrailing _ _ inside := nomatch List.infix_nil.mp inside
  noGap inside := nomatch List.infix_nil.mp inside

/-- A text is neat if what is behind its first character is, and that character fits. -/
theorem neat_cons_iff (c : Char) (rest : Text) :
    Neat (c :: rest) ↔ Neat rest ∧ Fits c (breaks rest) := by
  have leading : ['\n'] <+: rest ↔ rest.head? = some '\n' := by
    cases rest <;> simp [List.cons_prefix_cons, eq_comm]
  have leadingTwo : ['\n', '\n'] <+: rest ↔ rest.take 2 = ['\n', '\n'] := by
    rw [List.prefix_iff_eq_take]
    exact eq_comm
  rw [← Classical.not_not (a := Fits c (breaks rest)), not_fits_iff, ← leading, ← leadingTwo]
  constructor
  · rintro ⟨noTrailing, noGap⟩
    refine ⟨⟨fun d spacing inside => ?_, fun inside => ?_⟩, ?_⟩
    · exact noTrailing d spacing (List.infix_cons inside)
    · exact noGap (List.infix_cons inside)
    · rintro (⟨spacing, follows⟩ | ⟨rfl, follow⟩)
      · exact noTrailing c spacing (List.cons_prefix_cons.mpr ⟨rfl, follows⟩).isInfix
      · exact noGap (List.cons_prefix_cons.mpr ⟨rfl, follow⟩).isInfix
  · rintro ⟨⟨noTrailing, noGap⟩, fits⟩
    refine ⟨fun d spacing inside => ?_, fun inside => ?_⟩
    · rcases List.infix_cons_iff.mp inside with here | behind
      · obtain ⟨rfl, follows⟩ := List.cons_prefix_cons.mp here
        exact fits (.inl ⟨spacing, follows⟩)
      · exact noTrailing d spacing behind
    · rcases List.infix_cons_iff.mp inside with here | behind
      · obtain ⟨rfl, follow⟩ := List.cons_prefix_cons.mp here
        exact fits (.inr ⟨rfl, follow⟩)
      · exact noGap behind

/-- What is not white space may stand in front of any neat text. -/
theorem neat_cons_of_not_space {c : Char} (seen : isSpace c = false) {rest : Text}
    (neat : Neat rest) : Neat (c :: rest) :=
  (neat_cons_iff c rest).mpr ⟨neat, fits_of_not_space seen _⟩

/-- No line break is added by what is put behind a text that ends with something that can be
seen. -/
theorem breaks_append {first : Text} (nonempty : first ≠ [])
    (ends : ∀ c ∈ first.getLast?, isSpace c = false) (second : Text) :
    breaks (first ++ second) = breaks first := by
  induction first with
  | nil => exact absurd rfl nonempty
  | cons c rest ih =>
    cases rest with
    | nil =>
      have seen : c ≠ '\n' := by
        rintro rfl
        exact absurd (ends '\n' rfl) (by decide)
      simp [breaks, seen]
    | cons d rest =>
      have endsRest : ∀ e ∈ (d :: rest).getLast?, isSpace e = false := by
        rwa [List.getLast?_cons_cons] at ends
      rw [List.cons_append, breaks, breaks, ih (List.cons_ne_nil d rest) endsRest]

/-- Text that ends with something that can be seen may stand in front of anything. -/
theorem neat_append {first second : Text} (neat : Neat first) (neatSecond : Neat second)
    (ends : ∀ c ∈ first.getLast?, isSpace c = false) : Neat (first ++ second) := by
  induction first with
  | nil => exact neatSecond
  | cons c rest ih =>
    obtain ⟨neatRest, fits⟩ := (neat_cons_iff c rest).mp neat
    cases rest with
    | nil => exact neat_cons_of_not_space (ends c rfl) neatSecond
    | cons d rest =>
      have endsRest : ∀ e ∈ (d :: rest).getLast?, isSpace e = false := by
        rwa [List.getLast?_cons_cons] at ends
      rw [List.cons_append, neat_cons_iff, breaks_append (List.cons_ne_nil d rest) endsRest]
      exact ⟨ih neatRest endsRest, fits⟩

/-- A piece of a neat text is neat. -/
theorem Neat.of_infix {piece text : Text} (neat : Neat text) (inside : piece <:+: text) :
    Neat piece where
  noTrailing c spacing found := neat.noTrailing c spacing (found.trans inside)
  noGap found := neat.noGap (found.trans inside)

/-- Firm text begins with no line break. -/
theorem Firm.breaks_eq_zero {text : Text} (firm : Firm text) : breaks text = 0 := by
  obtain ⟨c, rest, rfl⟩ := List.exists_cons_of_ne_nil firm.nonempty
  have seen : c ≠ '\n' := by
    rintro rfl
    exact absurd (firm.first '\n' rfl) (by decide)
  rw [breaks, if_neg seen]

/-- Normal text in which something can be seen can be seen at both ends. -/
theorem Firm.of_normal {text : Text} (normal : Normal text) (seen : isBlank text = false) :
    Firm text :=
  { normal.toTrimmed with
    nonempty := by
      rintro rfl
      exact absurd seen (by decide) }

/-- The ends of a joined text are the outer ends of its firm pieces. -/
theorem Firm.append {first second : Text} (firm : Firm first) (firmSecond : Firm second)
    (between : Text) : Firm (first ++ (between ++ second)) where
  first := by
    rw [List.head?_append_of_ne_nil first firm.nonempty]
    exact firm.first
  last := by
    have behind : between ++ second ≠ [] :=
      List.append_ne_nil_of_right_ne_nil between firmSecond.nonempty
    rw [List.getLast?_append_of_ne_nil first behind,
      List.getLast?_append_of_ne_nil between firmSecond.nonempty]
    exact firmSecond.last
  nonempty := List.append_ne_nil_of_left_ne_nil firm.nonempty _

/-- Putting characters in front of each other as far as they fit makes a text neat. -/
theorem neat_foldr_consTidy (text : Text) : Neat (text.foldr consTidy []) := by
  induction text with
  | nil => exact neat_nil
  | cons c rest ih =>
    rw [List.foldr_cons, consTidy_eq]
    split
    next fits => exact (neat_cons_iff _ _).mpr ⟨ih, fits⟩
    next => exact ih

/-- In a neat text every character fits. -/
theorem foldr_consTidy_of_neat {text : Text} (neat : Neat text) :
    text.foldr consTidy [] = text := by
  induction text with
  | nil => rfl
  | cons c rest ih =>
    obtain ⟨neatRest, fits⟩ := (neat_cons_iff c rest).mp neat
    rw [List.foldr_cons, ih neatRest, consTidy_eq, if_pos fits]

/-- Leaving characters out adds none. -/
theorem foldr_consTidy_sublist (text : Text) : (text.foldr consTidy []).Sublist text := by
  apply foldr_sublist
  intro c rest
  rw [consTidy_eq]
  split
  next => exact .inl rfl
  next => exact .inr rfl

/-- The last character is never left out. -/
theorem getLast?_foldr_consTidy (text : Text) :
    (text.foldr consTidy []).getLast? = text.getLast? := by
  induction text with
  | nil => rfl
  | cons c rest ih =>
    cases rest with
    | nil => simp [consTidy]
    | cons d rest =>
      obtain ⟨e, others, kept⟩ : ∃ e others, (d :: rest).foldr consTidy [] = e :: others := by
        refine List.exists_cons_of_ne_nil fun empty => ?_
        rw [empty] at ih
        exact List.cons_ne_nil d rest (List.getLast?_eq_none_iff.mp ih.symm)
      rw [List.foldr_cons, consTidy_eq, List.getLast?_cons_cons, ← ih, kept]
      split
      next => rw [List.getLast?_cons_cons]
      next => rfl

/-- What is left by trimming is trimmed. -/
theorem trimmed_trim (text : Text) : Trimmed (trim text) := by
  change Trimmed ((text.dropWhile isSpace).rdropWhile isSpace)
  constructor
  · intro c first
    obtain ⟨rest, whole⟩ := List.head?_eq_some_iff.mp first
    obtain ⟨cut, joined⟩ := List.rdropWhile_prefix isSpace (text.dropWhile isSpace)
    have begins := List.head?_dropWhile_not isSpace text
    rw [← joined, whole] at begins
    simpa using begins
  · intro c last
    have nonempty : (text.dropWhile isSpace).rdropWhile isSpace ≠ [] := by
      intro empty
      simp [empty] at last
    have seen := List.rdropWhile_last_not isSpace (text.dropWhile isSpace) nonempty
    rw [List.getLast?_eq_some_getLast nonempty, Option.mem_def, Option.some.injEq] at last
    simpa [last] using seen

/-- A trimmed text is not trimmed any further. -/
theorem trim_of_trimmed {text : Text} (trimmed : Trimmed text) : trim text = text := by
  have front : text.dropWhile isSpace = text := by
    cases text with
    | nil => rfl
    | cons c rest => rw [List.dropWhile_cons_of_neg]; simp [trimmed.first c rfl]
  change (text.dropWhile isSpace).rdropWhile isSpace = text
  rw [front, List.rdropWhile_eq_self_iff]
  intro nonempty
  have ends := trimmed.last _ (List.getLast?_eq_some_getLast nonempty)
  simp [ends]

/-- Nothing but white space is cut off a text by trimming. -/
theorem exists_blank_around_trim (text : Text) :
    ∃ front behind, text = front ++ trim text ++ behind ∧
      isBlank front = true ∧ isBlank behind = true := by
  let rest := text.dropWhile isSpace
  have front : text = text.takeWhile isSpace ++ rest := List.takeWhile_append_dropWhile.symm
  have behind : rest = trim text ++ (rest.reverse.takeWhile isSpace).reverse := by
    rw [trim, ← List.reverse_append, List.takeWhile_append_dropWhile, List.reverse_reverse]
  refine ⟨text.takeWhile isSpace, (rest.reverse.takeWhile isSpace).reverse, ?_, ?_, ?_⟩
  · rw [List.append_assoc, ← behind, ← front]
  · exact List.all_takeWhile
  · rw [isBlank, List.all_reverse]
    exact List.all_takeWhile

/-- What can be seen of a text: all but its white space. -/
def visible (text : Text) : Text :=
  text.filter fun c => !isSpace c

/-- What can be seen of consecutive texts is seen one behind the other. -/
@[simp]
theorem visible_append (first second : Text) :
    visible (first ++ second) = visible first ++ visible second :=
  List.filter_append first second

/-- Nothing can be seen of a blank text. -/
theorem visible_of_blank {text : Text} (blank : isBlank text = true) : visible text = [] := by
  rw [visible, List.filter_eq_nil_iff]
  intro c member
  simpa using List.all_eq_true.mp blank c member

/-- Trimming takes away nothing that can be seen. -/
@[simp]
theorem visible_trim (text : Text) : visible (trim text) = visible text := by
  obtain ⟨front, behind, parts, blankFront, blankBehind⟩ := exists_blank_around_trim text
  calc visible (trim text)
      = visible front ++ visible (trim text) ++ visible behind := by
        rw [visible_of_blank blankFront, visible_of_blank blankBehind, List.nil_append,
          List.append_nil]
    _ = visible (front ++ trim text ++ behind) := by rw [visible_append, visible_append]
    _ = visible text := by rw [← parts]

/-- Making a trimmed text neat leaves its ends as they are. -/
theorem trimmed_foldr_consTidy {text : Text} (trimmed : Trimmed text) :
    Trimmed (text.foldr consTidy []) := by
  constructor
  · cases text with
    | nil => exact trimmed.first
    | cons c rest =>
      rw [List.foldr_cons, consTidy_eq, if_pos (fits_of_not_space (trimmed.first c rfl) _)]
      exact trimmed.first
  · rw [getLast?_foldr_consTidy]
    exact trimmed.last

/-- Tidied text is as a finished section is to be. -/
theorem normal_tidy (text : Text) : Normal (tidy text) :=
  { trimmed_foldr_consTidy (trimmed_trim text), neat_foldr_consTidy (trim text) with }

/-- Tidying changes nothing exactly in a text that is as a finished section is to be. -/
theorem tidy_eq_self_iff (text : Text) : tidy text = text ↔ Normal text := by
  constructor
  · intro same
    exact same ▸ normal_tidy text
  · intro normal
    rw [tidy, trim_of_trimmed normal.toTrimmed, foldr_consTidy_of_neat normal.toNeat]

instance (text : Text) : Decidable (Normal text) :=
  decidable_of_iff _ (tidy_eq_self_iff text)

/-- Tidying adds no character. -/
theorem mem_of_mem_tidy {c : Char} {text : Text} (member : c ∈ tidy text) : c ∈ text := by
  have inTrimmed : c ∈ trim text := (foldr_consTidy_sublist (trim text)).subset member
  have inFront : c ∈ text.dropWhile isSpace :=
    (List.rdropWhile_prefix isSpace (text.dropWhile isSpace)).subset inTrimmed
  exact (List.dropWhile_sublist isSpace).subset inFront

end CommentMarkdown.Text
