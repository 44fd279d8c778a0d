import CommentMarkdown.Directive.Basic

/-!
# Tokens of prose

Reading prose comes in two steps. The first one, here, needs no knowledge of
nesting and cannot fail: it finds the braces and the heads of groups. A token is
an ordinary character, an opening brace together with the head behind it, or a
closing brace.

The text is read from its end. The tokens of what follows are known when a
character is put in front of them, and an opening brace takes its head from
them: an at sign, then every letter, then one blank if there is one. So a name
is always as long as it can be.
-/

namespace CommentMarkdown.Directive

/-- A piece of prose before groups are matched. -/
inductive Token
  | char (c : Char)
  | opening (head : Head)
  | closing
  deriving DecidableEq, Repr

namespace Token

/-- The characters of a token. -/
def source : Token → Text
  | char c => [c]
  | opening head => '{' :: head.source
  | closing => ['}']

/-- The letters that the tokens begin with, and the tokens behind them. -/
def readName : List Token → Text × List Token
  | char c :: rest =>
    if Text.isLetter c then
      let (name, behind) := readName rest
      (c :: name, behind)
    else ([], char c :: rest)
  | tokens => ([], tokens)

/-- The head that the tokens begin with, and the tokens behind it. -/
def readHead : List Token → Head × List Token
  | char '@' :: rest =>
    match readName rest with
    | (name, char ' ' :: behind) => (.named name true, behind)
    | (name, behind) => (.named name false, behind)
  | tokens => (.plain, tokens)

/-- Puts a character in front of the tokens of the text behind it. -/
def attach (c : Char) (following : List Token) : List Token :=
  if c = '{' then
    let (head, rest) := readHead following
    opening head :: rest
  else if c = '}' then closing :: following
  else char c :: following

/-- The tokens of a text. -/
def scan (text : Text) : List Token :=
  text.foldr attach []

/-- Reading a name loses nothing. -/
theorem source_readName (tokens : List Token) :
    (readName tokens).1 ++ (readName tokens).2.flatMap source = tokens.flatMap source := by
  induction tokens with
  | nil => rfl
  | cons token rest ih =>
    cases token with
    | char c =>
      by_cases letter : Text.isLetter c
      · simpa [readName, letter, source] using ih
      · simp [readName, letter, source]
    | opening head => rfl
    | closing => rfl

/-- Reading a head loses nothing. -/
theorem source_readHead (tokens : List Token) :
    (readHead tokens).1.source ++ (readHead tokens).2.flatMap source = tokens.flatMap source := by
  unfold readHead
  split
  next rest =>
    have whole := source_readName rest
    split
    next name behind read =>
      simp only [read] at whole
      simpa [Head.source, source] using whole
    next name behind _ read =>
      simp only [read] at whole
      simpa [Head.source, source] using whole
  next => simp [Head.source]

/-- A token is exactly the characters that it was made of. -/
theorem source_attach (c : Char) (following : List Token) :
    (attach c following).flatMap source = c :: following.flatMap source := by
  unfold attach
  split
  next brace => simpa [source, brace] using source_readHead following
  next =>
    split
    next brace => simp [source, brace]
    next => simp [source]

/-- The tokens of a text, one behind the other, are the text. -/
@[simp]
theorem source_scan (text : Text) : (scan text).flatMap source = text := by
  induction text with
  | nil => rfl
  | cons c rest ih =>
    have attached := source_attach c (scan rest)
    rw [ih] at attached
    exact attached

end Token

end CommentMarkdown.Directive
