import CommentMarkdown.Proofs.Directive.Grammar
import CommentMarkdown.Proofs.Text.Runs

/-!
# Scanning and maximal heads

The tokens of a text are found from its end, the heads of groups from its beginning.
Both agree: behind an opening brace there is exactly one head that takes as much as
it can (`exists_maximal_head`), and it is the head of the brace's token
(`scan_opening`). Every other character is a token of its own. So a scan can be
followed from left to right without a look at the tokens that come later.
-/

namespace CommentMarkdown.Directive

open Token

/-- Every text begins with a head that leaves nothing behind that it could have taken. -/
theorem exists_maximal_head (text : Text) :
    ∃ (head : Head) (following : Text), text = head.source ++ following ∧ head.Maximal following := by
  by_cases directive : text.head? = some '@'
  · obtain ⟨rest, rfl⟩ := List.head?_eq_some_iff.mp directive
    obtain ⟨name, behind, rfl, letters, ends⟩ := Text.exists_run Text.isLetter rest
    by_cases spaced : behind.head? = some ' '
    · obtain ⟨following, rfl⟩ := List.head?_eq_some_iff.mp spaced
      exact ⟨.named name true, following, by simp [Head.source], letters, by simp⟩
    · refine ⟨.named name false, behind, by simp [Head.source], letters, fun _ c first => ?_⟩
      refine ⟨ends c first, ?_⟩
      rintro rfl
      exact spaced first
  · exact ⟨.plain, text, by simp [Head.source], directive⟩

/-- What is maximal before the content of a group is maximal before the whole text behind it:
a closing brace is nothing that a head could take. -/
theorem maximal_append_closing_iff (head : Head) (content rest : Text) :
    head.Maximal (content ++ '}' :: rest) ↔ head.Maximal content := by
  have noLetter : Text.isLetter '}' = false := by decide
  cases content <;> cases head <;> simp [Head.Maximal, noLetter]

/-- A character that is no brace is a token. -/
theorem scan_char {c : Char} (opens : c ≠ '{') (closes : c ≠ '}') (rest : Text) :
    scan (c :: rest) = .char c :: scan rest := by
  simp [scan, attach, opens, closes]

/-- A closing brace is a token. -/
theorem scan_closing (rest : Text) : scan ('}' :: rest) = .closing :: scan rest := by
  simp [scan, attach]

/-- A text begins with the character that its tokens begin with. -/
theorem head?_of_scan {text : Text} {c : Char} {tokens : List Token}
    (scanned : scan text = .char c :: tokens) : text.head? = some c := by
  cases text with
  | nil => simp [scan] at scanned
  | cons first rest =>
    by_cases opens : first = '{'
    · simp [scan, attach, opens] at scanned
    · by_cases closes : first = '}'
      · simp [closes, scan_closing] at scanned
      · simp only [scan_char opens closes, List.cons.injEq, Token.char.injEq] at scanned
        simp [scanned.1]

/-- A letter is no brace. -/
theorem isLetter_ne_brace {c : Char} (letter : Text.isLetter c = true) : c ≠ '{' ∧ c ≠ '}' := by
  constructor <;> rintro rfl <;> revert letter <;> decide

/-- The name that tokens begin with ends where the letters of the text end. -/
theorem readName_scan (name following : Text) (letters : ∀ c ∈ name, Text.isLetter c = true)
    (ends : ∀ c ∈ following.head?, Text.isLetter c = false) :
    readName (scan (name ++ following)) = (name, scan following) := by
  induction name with
  | nil =>
    rw [List.nil_append]
    cases scanned : scan following with
    | nil => rfl
    | cons token tokens =>
      cases token with
      | char c => simp [readName, ends c (head?_of_scan scanned)]
      | opening head => rfl
      | closing => rfl
  | cons c name ih =>
    have letter : Text.isLetter c = true := letters c (by simp)
    obtain ⟨opens, closes⟩ := isLetter_ne_brace letter
    rw [List.cons_append, scan_char opens closes]
    simp [readName, letter, ih (fun other member => letters other (by simp [member]))]

/-- The head that tokens begin with is the maximal head of the text. -/
theorem readHead_scan (head : Head) (following : Text) (maximal : head.Maximal following) :
    readHead (scan (head.source ++ following)) = (head, scan following) := by
  cases head with
  | plain =>
    rw [Head.source, List.nil_append]
    unfold readHead
    split
    next scanned => exact absurd (head?_of_scan scanned) maximal
    next => rfl
  | named name spaced =>
    obtain ⟨letters, ends⟩ := maximal
    have at_sign (rest : Text) : scan ('@' :: rest) = .char '@' :: scan rest :=
      scan_char (by decide) (by decide) rest
    cases spaced with
    | true =>
      have read := readName_scan name (' ' :: following) letters (by simp; decide)
      rw [scan_char (c := ' ') (by decide) (by decide)] at read
      simp only [Head.source, if_true, List.cons_append, List.append_assoc, List.nil_append]
      rw [at_sign]
      unfold readHead
      simp only [read]
    | false =>
      have read := readName_scan name following letters fun c first => (ends rfl c first).1
      simp only [Head.source, Bool.false_eq_true, if_false, List.append_nil, List.cons_append]
      rw [at_sign]
      unfold readHead
      simp only [read]
      split
      next behind same =>
        obtain ⟨rfl, scanned⟩ := Prod.mk.inj same
        exact absurd rfl (ends rfl ' ' (head?_of_scan scanned)).2
      next _ same =>
        obtain ⟨rfl, rfl⟩ := Prod.mk.inj same
        rfl

/-- An opening brace and the maximal head behind it are a token. -/
theorem scan_opening (head : Head) (following : Text) (maximal : head.Maximal following) :
    scan ('{' :: head.source ++ following) = .opening head :: scan following := by
  change attach '{' (scan (head.source ++ following)) = _
  rw [attach, if_pos rfl, readHead_scan head following maximal]

end CommentMarkdown.Directive
