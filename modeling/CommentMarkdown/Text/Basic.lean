/-!
# Text

Comment prose, names and rendered Markdown are lists of characters. The only
characters with a meaning of their own are ASCII: six kinds of white space, the
letters, the digits and the underscore. Every other character is carried along
unchanged, so no rule of this library depends on a locale.

Positions and sizes count UTF-8 bytes. They are computed from the characters,
and `byteSize_append` is what makes positions of consecutive pieces add up.
-/

namespace CommentMarkdown

/-- Prose, names and rendered output alike. -/
abbrev Text := List Char

namespace Text

/-- White space: blank, tab, line feed, vertical tab, form feed, carriage return. -/
def isSpace (c : Char) : Bool :=
  c == ' ' || c == '\t' || c == '\n' || c == '\x0b' || c == '\x0c' || c == '\r'

/-- The white space that can trail at the end of a line without ending it. -/
def isSpacing (c : Char) : Bool :=
  c == ' ' || c == '\t'

/-- A letter of a directive's name. -/
def isLetter (c : Char) : Bool :=
  c.isAlpha

/-- A character of an element's name: letter, digit or underscore. -/
def isWord (c : Char) : Bool :=
  c.isAlphanum || c == '_'

/-- A text that holds white space only; the empty text is blank. -/
def isBlank (text : Text) : Bool :=
  text.all isSpace

/-- The text without the white space at its two ends. -/
def trim (text : Text) : Text :=
  ((text.dropWhile isSpace).reverse.dropWhile isSpace).reverse

/-- What follows a beginning, if a text has it. -/
def behind? (start text : Text) : Option Text :=
  if start.isPrefixOf text then some (text.drop start.length) else none

/-- The text with the ASCII capitals made small. -/
def lower (text : Text) : Text :=
  text.map Char.toLower

/-- The length in UTF-8 bytes. -/
def byteSize : Text → Nat
  | [] => 0
  | c :: rest => c.utf8Size + byteSize rest

/-- The decimal digits of a number. -/
def decimal (number : Nat) : Text :=
  Nat.toDigits 10 number

/-- A text has a beginning exactly if the beginning and what follows it make it up. -/
theorem behind?_eq_some_iff {start text rest : Text} :
    behind? start text = some rest ↔ text = start ++ rest := by
  unfold behind?
  constructor
  · intro found
    split at found
    next begins =>
      obtain ⟨tail, rfl⟩ := List.isPrefixOf_iff_prefix.mp begins
      simpa using found
    next => cases found
  · rintro rfl
    simp

/-- What stands in front of the first place of a character, and behind it, makes a text what it
is. -/
theorem append_cons_inj {c : Char} {front other behind rest : Text} (fresh : c ∉ front)
    (freshOther : c ∉ other) :
    front ++ c :: behind = other ++ c :: rest ↔ front = other ∧ behind = rest := by
  constructor
  · intro same
    induction front generalizing other with
    | nil =>
      cases other with
      | nil => exact ⟨rfl, (List.cons.inj same).2⟩
      | cons first other => exact absurd ((List.cons.inj same).1 ▸ List.mem_cons_self) freshOther
    | cons first front ih =>
      cases other with
      | nil => exact absurd ((List.cons.inj same).1 ▸ List.mem_cons_self) fresh
      | cons head other =>
        obtain ⟨rfl, sameRest⟩ := List.cons.inj same
        obtain ⟨rfl, sameBehind⟩ := ih (fun member => fresh (List.mem_cons_of_mem _ member))
          (fun member => freshOther (List.mem_cons_of_mem _ member)) sameRest
        exact ⟨rfl, sameBehind⟩
  · rintro ⟨rfl, rfl⟩
    rfl

@[simp]
theorem byteSize_nil : byteSize [] = 0 := rfl

@[simp]
theorem byteSize_cons (c : Char) (rest : Text) :
    byteSize (c :: rest) = c.utf8Size + byteSize rest := rfl

/-- The sizes of consecutive pieces add up. -/
@[simp]
theorem byteSize_append (first second : Text) :
    byteSize (first ++ second) = byteSize first + byteSize second := by
  induction first with
  | nil => simp
  | cons c rest ih => simp [ih, Nat.add_assoc]

end Text

end CommentMarkdown
