import CommentMarkdown.Text.Basic

/-!
# The grammar of JSON

One inductive predicate for each production, on texts as a whole: what a text of the production is
made of stands in its constructors. White space may surround every token, and a string holds any
character as it is but its delimiter, the backslash and the control characters.

A control character therefore stands nowhere in a value unless it is white space (`Value.tame`), and
inside a string it has to be written as an escape. That a text is a value is told by its
derivation, and that some text is none by a control character of another kind.
-/

namespace CommentMarkdown.Json

/-- White space between tokens. -/
def isBlank (c : Char) : Bool :=
  c == ' ' || c == '\t' || c == '\n' || c == '\r'

/-- A control character, which no string holds as it is. -/
def isControl (c : Char) : Bool :=
  c < ' '

/-- White space, or nothing. -/
def Blank (text : Text) : Prop :=
  ∀ c ∈ text, isBlank c = true

/-- At least one digit. -/
structure Digits (text : Text) : Prop where
  nonempty : text ≠ []
  isDigit : ∀ c ∈ text, c.isDigit = true

/-- The whole part of a number. Only zero itself begins with a zero. -/
inductive Whole : Text → Prop
  | zero : Whole ['0']
  | digits {text : Text} (digits : Digits text) (first : text.head? ≠ some '0') : Whole text

/-- The part of a number behind the point. -/
inductive Fraction : Text → Prop
  | absent : Fraction []
  | present {digits : Text} : Digits digits → Fraction ('.' :: digits)

/-- The power of ten of a number. -/
inductive Exponent : Text → Prop
  | absent : Exponent []
  | present {mark : Char} {sign digits : Text} (marked : mark = 'e' ∨ mark = 'E')
    (signed : sign ∈ [[], ['+'], ['-']]) : Digits digits → Exponent (mark :: sign ++ digits)

/-- A number. It may have a minus in front, but no plus. -/
inductive Number : Text → Prop
  | mk {sign whole fraction exponent : Text} (signed : sign ∈ [[], ['-']]) :
    Whole whole → Fraction fraction → Exponent exponent →
      Number (sign ++ whole ++ fraction ++ exponent)

/-- The characters that a backslash may stand in front of, the code of a character apart. -/
def escapeLetters : Text :=
  ['"', '\\', '/', 'b', 'f', 'n', 'r', 't']

/-- What stands between the quotes of a string. -/
inductive Characters : Text → Prop
  | nil : Characters []
  | plain {c : Char} {rest : Text} (visible : isControl c = false) (noQuote : c ≠ '"')
    (noBackslash : c ≠ '\\') : Characters rest → Characters (c :: rest)
  | escape {c : Char} {rest : Text} (named : c ∈ escapeLetters) :
    Characters rest → Characters ('\\' :: c :: rest)
  | code {digits rest : Text} (four : digits.length = 4)
    (hex : ∀ c ∈ digits, c.isHexDigit = true) : Characters rest →
      Characters ('\\' :: 'u' :: digits ++ rest)

/-- A string, with its quotes. -/
def quote (content : Text) : Text :=
  '"' :: content ++ ['"']

mutual

/-- Any value. -/
inductive Value : Text → Prop
  | word {text : Text} (named : text ∈ ["true".toList, "false".toList, "null".toList]) : Value text
  | number {text : Text} : Number text → Value text
  | string {content : Text} : Characters content → Value (quote content)
  | emptyArray {inside : Text} : Blank inside → Value ('[' :: inside ++ [']'])
  | array {inside : Text} : Elements inside → Value ('[' :: inside ++ [']'])
  | object {text : Text} : Object text → Value text

/-- An object, with its braces. -/
inductive Object : Text → Prop
  | empty {inside : Text} : Blank inside → Object ('{' :: inside ++ ['}'])
  | members {inside : Text} : Members inside → Object ('{' :: inside ++ ['}'])

/-- A value and the white space around it. -/
inductive Element : Text → Prop
  | mk {before value after : Text} : Blank before → Value value → Blank after →
    Element (before ++ value ++ after)

/-- The elements of an array. -/
inductive Elements : Text → Prop
  | one {element : Text} : Element element → Elements element
  | more {element rest : Text} : Element element → Elements rest → Elements (element ++ ',' :: rest)

/-- A member of an object: its name and its value. -/
inductive Member : Text → Prop
  | mk {before name between element : Text} : Blank before → Characters name → Blank between →
    Element element → Member (before ++ quote name ++ between ++ ':' :: element)

/-- The members of an object. -/
inductive Members : Text → Prop
  | one {member : Text} : Member member → Members member
  | more {member rest : Text} : Member member → Members rest → Members (member ++ ',' :: rest)

end

/-- The control characters of a text are white space. -/
def Tame (text : Text) : Prop :=
  ∀ c ∈ text, isControl c = true → isBlank c = true

@[simp]
theorem tame_nil : Tame [] :=
  nofun

/-- A text is tame exactly if its first character and the rest are. -/
@[simp]
theorem tame_cons_iff {c : Char} {rest : Text} :
    Tame (c :: rest) ↔ (isControl c = true → isBlank c = true) ∧ Tame rest :=
  List.forall_mem_cons

/-- A text is tame exactly if its parts are. -/
@[simp]
theorem tame_append_iff {first second : Text} :
    Tame (first ++ second) ↔ Tame first ∧ Tame second :=
  List.forall_mem_append

/-- Quotes do not change whether a text is tame. -/
@[simp]
theorem tame_quote_iff {content : Text} : Tame (quote content) ↔ Tame content := by
  simp [quote, isControl]

theorem Blank.tame {text : Text} (blank : Blank text) : Tame text :=
  fun c member _ => blank c member

/-- A hexadecimal digit is no control character: all of them stand behind the blank. -/
theorem isControl_of_isHexDigit {c : Char} (hex : c.isHexDigit = true) : isControl c = false := by
  rw [isControl, decide_eq_false_iff_not, Char.lt_def, UInt32.lt_iff_toNat_lt]
  simp only [Char.isHexDigit, Char.isDigit, Bool.or_eq_true, Bool.and_eq_true, decide_eq_true_eq,
    ge_iff_le, UInt32.le_iff_toNat_le] at hex
  change ¬ _ < 32
  change ((48 ≤ _ ∧ _) ∨ (97 ≤ _ ∧ _)) ∨ (65 ≤ _ ∧ _) at hex
  omega

/-- Hexadecimal digits are tame. -/
theorem tame_of_hex {text : Text} (hex : ∀ c ∈ text, c.isHexDigit = true) : Tame text :=
  fun c member control => by simp [isControl_of_isHexDigit (hex c member)] at control

theorem Digits.tame {text : Text} (digits : Digits text) : Tame text :=
  tame_of_hex fun c member => by simp [Char.isHexDigit, digits.isDigit c member]

theorem Number.tame {text : Text} (number : Number text) : Tame text := by
  obtain ⟨signed, whole, fraction, exponent⟩ := number
  simp only [tame_append_iff]
  refine ⟨⟨⟨?_, ?_⟩, ?_⟩, ?_⟩
  · have signs : ∀ sign ∈ [[], ['-']], Tame sign := by simp [isControl]
    exact signs _ signed
  · cases whole with
    | zero => simp [isControl]
    | digits digits _ => exact digits.tame
  · cases fraction with
    | absent => exact tame_nil
    | present digits => simpa [isControl] using digits.tame
  · cases exponent with
    | absent => exact tame_nil
    | present marked signed digits =>
      have signs : ∀ sign ∈ [[], ['+'], ['-']], Tame sign := by simp [isControl]
      have tameSign := signs _ signed
      rcases marked with rfl | rfl <;> simpa [isControl, digits.tame] using tameSign

/-- A string's content is tame: its control characters are written as escapes. -/
theorem Characters.tame {content : Text} (derived : Characters content) : Tame content := by
  induction derived with
  | nil => exact tame_nil
  | plain visible _ _ _ ih => simpa [visible] using ih
  | escape named _ ih =>
    have visible : ∀ c ∈ escapeLetters, isControl c = false := by simp [escapeLetters, isControl]
    have noControl : isControl '\\' = false := rfl
    simpa [noControl, visible _ named] using ih
  | code _ hex _ ih => simpa [isControl] using ⟨tame_of_hex hex, ih⟩

mutual

/-- A value is tame. The induction is on the derivation, production by production. -/
theorem Value.tame {text : Text} : Value text → Tame text
  | .word named => by
    have words : ∀ word ∈ ["true".toList, "false".toList, "null".toList], Tame word := by
      simp [isControl]
    exact words _ named
  | .number number => number.tame
  | .string content => tame_quote_iff.mpr content.tame
  | .emptyArray blank => by simpa [isControl] using blank.tame
  | .array elements => by simpa [isControl] using elements.tame
  | .object object => object.tame

theorem Object.tame {text : Text} : Object text → Tame text
  | .empty blank => by simpa [isControl] using blank.tame
  | .members members => by simpa [isControl] using members.tame

theorem Element.tame {text : Text} : Element text → Tame text
  | .mk before value after => by simpa using ⟨before.tame, value.tame, after.tame⟩

theorem Elements.tame {text : Text} : Elements text → Tame text
  | .one element => element.tame
  | .more element rest => by simpa [isControl] using ⟨element.tame, rest.tame⟩

theorem Member.tame {text : Text} : Member text → Tame text
  | .mk before name between element => by
    simpa [isControl] using ⟨before.tame, name.tame, between.tame, element.tame⟩

theorem Members.tame {text : Text} : Members text → Tame text
  | .one member => member.tame
  | .more member rest => by simpa [isControl] using ⟨member.tame, rest.tame⟩

end

end CommentMarkdown.Json
