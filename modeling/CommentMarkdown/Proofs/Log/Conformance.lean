import CommentMarkdown.Log.Record
import CommentMarkdown.Proofs.Json.Grammar
import CommentMarkdown.Proofs.Text.Decimal
import Mathlib.Data.Bool.AllAny

/-!
# Records as JSON objects

A record's line of JSON ends with its only line break of its own, and what stands in front of that
is meant to be an object. Everything in it is in order for every record, the message apart: the
quote, the backslash, the line break, the carriage return and the tab of a message are escaped,
and nothing else is. A string must escape all control characters, though. So the line holds an
object exactly if the message has no control character other than these three
(`object_iff_controls_escaped`).

The module is written as it is. Here it is one that a string may hold as it is.
-/

namespace CommentMarkdown

namespace Json

/-- A text that a string holds as it is: no control character, no quote, no backslash. -/
def Plain (text : Text) : Prop :=
  ∀ c ∈ text, isControl c = false ∧ c ≠ '"' ∧ c ≠ '\\'

instance (text : Text) : Decidable (Plain text) :=
  text.decidableBAll fun c => isControl c = false ∧ c ≠ '"' ∧ c ≠ '\\'

/-- Such a text is its own content of a string. -/
theorem Plain.content {text : Text} (plain : Plain text) : Characters text := by
  induction text with
  | nil => exact .nil
  | cons c rest ih =>
    obtain ⟨⟨visible, noQuote, noBackslash⟩, plainRest⟩ := List.forall_mem_cons.mp plain
    exact .plain visible noQuote noBackslash (ih plainRest)

/-- The decimal of a number is the whole part of one. -/
theorem whole_decimal (number : Nat) : Whole (Text.decimal number) := by
  rcases Nat.eq_zero_or_pos number with rfl | positive
  · exact .zero
  · exact .digits ⟨Nat.toDigits_ne_nil, fun _ => Text.isDigit_of_mem_decimal⟩
      (Text.head?_decimal_ne_zero positive)

/-- A whole number is a number. -/
theorem number_wholeNumber (value : Int) : Number (Log.wholeNumber value) := by
  have plain {sign : Text} (signed : sign ∈ [[], ['-']]) (number : Nat) :
      Number (sign ++ Text.decimal number) := by
    simpa using Number.mk signed (whole_decimal number) .absent .absent
  cases value with
  | ofNat number => exact plain List.mem_cons_self number
  | negSucc number => exact plain (List.mem_cons_of_mem _ List.mem_cons_self) (number + 1)

/-- A name and a value with nothing around them are a member. -/
theorem member_of_value {name value : Text} (plain : Plain name) (derived : Value value) :
    Member (quote name ++ ':' :: value) := by
  have none : Blank [] := nofun
  simpa using Member.mk none plain.content none (.mk none derived none)

end Json

namespace Log

open Json (escapeLetters isBlank isControl quote Characters Member Object Plain)

/-- The control characters that are escaped in a message. -/
def Escaped (c : Char) : Prop :=
  c = '\n' ∨ c = '\r' ∨ c = '\t'

instance : DecidablePred Escaped :=
  fun _ => inferInstanceAs (Decidable (_ ∨ _))

/-- What need not be escaped is written as it is. -/
theorem escapeJsonChar_of_plain {c : Char} (noQuote : c ≠ '"') (noBackslash : c ≠ '\\')
    (notEscaped : ¬ Escaped c) : escapeJsonChar c = [c] := by
  obtain ⟨noBreak, noReturn, noTab⟩ : c ≠ '\n' ∧ c ≠ '\r' ∧ c ≠ '\t' := by
    simpa only [Escaped, not_or] using notEscaped
  rw [escapeJsonChar, if_neg noQuote, if_neg noBackslash, if_neg noBreak, if_neg noReturn,
    if_neg noTab]

/-- The letters that name a character behind a backslash, each with the character. -/
def escapes : List (Char × Char) :=
  [('"', '"'), ('\\', '\\'), ('n', '\n'), ('r', '\r'), ('t', '\t')]

/-- A character is written as a letter that names it behind a backslash, or else as it is. -/
theorem escapeJsonChar_cases (c : Char) :
    (∃ letter ∈ escapeLetters, escapes.lookup letter = some c ∧ escapeJsonChar c = ['\\', letter]) ∨
      (c ≠ '"' ∧ c ≠ '\\' ∧ ¬ Escaped c ∧ escapeJsonChar c = [c]) := by
  by_cases named : c = '"' ∨ c = '\\' ∨ Escaped c
  · left
    rcases named with rfl | rfl | rfl | rfl | rfl
    exacts [⟨'"', by decide, rfl, rfl⟩, ⟨'\\', by decide, rfl, rfl⟩, ⟨'n', by decide, rfl, rfl⟩,
      ⟨'r', by decide, rfl, rfl⟩, ⟨'t', by decide, rfl, rfl⟩]
  · right
    obtain ⟨noQuote, noBackslash, notEscaped⟩ : c ≠ '"' ∧ c ≠ '\\' ∧ ¬ Escaped c := by
      simpa only [not_or] using named
    exact ⟨noQuote, noBackslash, notEscaped,
      escapeJsonChar_of_plain noQuote noBackslash notEscaped⟩

/-- An escaped character stands in a string, in front of whatever else does. -/
theorem content_escapeJsonChar {c : Char} (escaped : isControl c = true → Escaped c) {rest : Text}
    (content : Characters rest) : Characters (escapeJsonChar c ++ rest) := by
  rcases escapeJsonChar_cases c with
    ⟨letter, named, _, written⟩ | ⟨noQuote, noBackslash, notEscaped, written⟩
  · rw [written]
    exact .escape named content
  · have visible : isControl c = false := Bool.not_eq_true _ ▸ mt escaped notEscaped
    rw [written]
    exact .plain visible noQuote noBackslash content

/-- A message stands in a string if all its control characters are escaped. -/
theorem content_message {message : Text}
    (escaped : ∀ c ∈ message, isControl c = true → Escaped c) :
    Characters (message.flatMap escapeJsonChar) := by
  induction message with
  | nil => exact .nil
  | cons c rest ih =>
    obtain ⟨first, others⟩ := List.forall_mem_cons.mp escaped
    exact content_escapeJsonChar first (ih others)

/-- The name of a level stands in a string as it is. -/
theorem content_level (level : Level) : Characters level.name :=
  Plain.content (by cases level <;> decide)

namespace Record

/-- A record's line of JSON without its line break. -/
def jsonObject (record : Record) : Text :=
  '{' :: (quote "ts".toList ++ ':' :: wholeNumber record.millis ++
    ',' :: (quote "level".toList ++ ':' :: quote record.level.name ++
      ',' :: (quote "module".toList ++ ':' :: quote record.module ++
        ',' :: (quote "msg".toList ++ ':' ::
          quote (record.message.flatMap escapeJsonChar))))) ++ ['}']

/-- A line of JSON is what an object is made of, and a line break. -/
theorem jsonLine_eq (record : Record) : record.jsonLine = record.jsonObject ++ ['\n'] := by
  have time : "\x7b\"ts\":".toList = '{' :: quote "ts".toList ++ [':'] := rfl
  have level : "\"level\":\"".toList = quote "level".toList ++ [':', '"'] := rfl
  have module : "\"module\":\"".toList = quote "module".toList ++ [':', '"'] := rfl
  have message : "\"msg\":\"".toList = quote "msg".toList ++ [':', '"'] := rfl
  have next : "\",".toList = ['"', ','] := rfl
  have closing : "\"\x7d\n".toList = ['"', '}', '\n'] := rfl
  unfold jsonLine jsonObject
  simp only [time, level, module, message, next, closing, quote, List.append_assoc,
    List.cons_append, List.nil_append]

/-- The line of a record whose module may stand in a string as it is holds an object, if the control
characters of its message are all escaped. -/
theorem object_of_escaped (record : Record) (module : Plain record.module)
    (escaped : ∀ c ∈ record.message, isControl c = true → Escaped c) :
    Object record.jsonObject := by
  have time : Member (quote "ts".toList ++ ':' :: wholeNumber record.millis) :=
    Json.member_of_value (by decide) (.number (Json.number_wholeNumber record.millis))
  have level : Member (quote "level".toList ++ ':' :: quote record.level.name) :=
    Json.member_of_value (by decide) (.string (content_level record.level))
  have moduleName : Member (quote "module".toList ++ ':' :: quote record.module) :=
    Json.member_of_value (by decide) (.string module.content)
  have message :
      Member (quote "msg".toList ++ ':' :: quote (record.message.flatMap escapeJsonChar)) :=
    Json.member_of_value (by decide) (.string (content_message escaped))
  exact .members (.more time (.more level (.more moduleName (.one message))))

/-- A message's character that is not escaped stands in the record's line. -/
theorem mem_jsonObject_of_bare (record : Record) {c : Char} (member : c ∈ record.message)
    (bare : escapeJsonChar c = [c]) : c ∈ record.jsonObject := by
  have written : c ∈ record.message.flatMap escapeJsonChar :=
    List.mem_flatMap.mpr ⟨c, member, bare ▸ List.mem_cons_self⟩
  unfold jsonObject
  simp only [quote, List.mem_append, List.mem_cons, written, true_or, or_true]

/-- If an object stands in a record's line, the control characters of its message are all escaped:
one that is not would stand in the object. -/
theorem escaped_of_object (record : Record) (object : Object record.jsonObject) :
    ∀ c ∈ record.message, isControl c = true → Escaped c := by
  intro c member control
  by_contra notEscaped
  have noQuote : c ≠ '"' := by
    rintro rfl
    exact absurd control (by decide)
  have noBackslash : c ≠ '\\' := by
    rintro rfl
    exact absurd control (by decide)
  have bare := escapeJsonChar_of_plain noQuote noBackslash notEscaped
  have blank := object.tame c (record.mem_jsonObject_of_bare member bare) control
  simp only [isBlank, Bool.or_eq_true, beq_iff_eq] at blank
  rcases blank with ((rfl | isTab) | isBreak) | isReturn
  · exact absurd control (by decide)
  · exact notEscaped (.inr (.inr isTab))
  · exact notEscaped (.inl isBreak)
  · exact notEscaped (.inr (.inl isReturn))

/-- The line of a record is an object and a line break exactly if the message has no control
character that is not escaped, provided that the module may stand in a string as it is. -/
theorem object_iff_controls_escaped (record : Record) (module : Plain record.module) :
    (∃ object, Object object ∧ record.jsonLine = object ++ ['\n']) ↔
      ∀ c ∈ record.message, isControl c = true → Escaped c := by
  rw [jsonLine_eq]
  constructor
  · rintro ⟨object, derived, same⟩
    obtain rfl := List.append_cancel_right same
    exact record.escaped_of_object derived
  · intro escaped
    exact ⟨record.jsonObject, record.object_of_escaped module escaped, rfl⟩

/-- A message of several lines that quotes something. -/
def quotingRecord : Record :=
  ⟨.info, "render".toList, "say \"hi\"\n\tpath\\x".toList, -5⟩

/-- What such a message has in it is all escaped, so its line is an object. -/
theorem quotingRecord_object :
    Plain quotingRecord.module ∧
      (∀ c ∈ quotingRecord.message, isControl c = true → Escaped c) ∧
      ∃ object, Object object ∧ quotingRecord.jsonLine = object ++ ['\n'] := by
  have module : Plain quotingRecord.module := by decide
  have escaped : ∀ c ∈ quotingRecord.message, isControl c = true → Escaped c := by
    rw [← List.all_iff_forall_prop]
    decide
  exact ⟨module, escaped, (object_iff_controls_escaped quotingRecord module).mpr escaped⟩

/-- The report of a file whose name has the bell in it. -/
def bellRecord : Record :=
  ⟨.error, "cli".toList, "cannot open '\x07'".toList, 0⟩

/-- The bell is not escaped, so the report of such a file is no object. -/
theorem bellRecord_no_object :
    Plain bellRecord.module ∧
      ¬ ∃ object, Object object ∧ bellRecord.jsonLine = object ++ ['\n'] := by
  refine ⟨by decide, ?_⟩
  rintro ⟨object, derived, line⟩
  rw [jsonLine_eq] at line
  obtain rfl := List.append_cancel_right line
  exact absurd (bellRecord.escaped_of_object derived '\x07') (by decide)

end Record

end Log

end CommentMarkdown
