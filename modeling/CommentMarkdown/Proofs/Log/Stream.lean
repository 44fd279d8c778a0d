import CommentMarkdown.Proofs.Log.Conformance
import CommentMarkdown.Proofs.Text.Runs

/-!
# Reading a stream of records back

Lines of JSON that follow each other are a stream. It is cut at its line breaks, which messages
cannot meddle with, since theirs are escaped. In a line, the time ends with a comma, and the level
and the module with a quote. The message ends with the first quote that is not escaped, whatever
else stands in it: text that looks like the end of a record has its quotes escaped.

So the records can be told from their stream (`stream_read_back`). No more is asked of a module than
that it has neither a quote nor a line break, as it is not escaped.
-/

namespace CommentMarkdown.Log

open Json (quote)

/-- Reads a message up to the quote that ends it, and gives what is behind the quote as well. -/
def readMessage? : Text → Option (Text × Text)
  | [] => none
  | '"' :: behind => some ([], behind)
  | '\\' :: c :: rest => do
    let named ← escapes.lookup c
    let (message, behind) ← readMessage? rest
    return (named :: message, behind)
  | c :: rest => do
    let (message, behind) ← readMessage? rest
    return (c :: message, behind)

/-- Reads a whole number. -/
def readWhole : Text → Int
  | '-' :: digits => -Nat.ofDigitChars 10 digits 0
  | digits => Nat.ofDigitChars 10 digits 0

/-- Reads what stands between a beginning and the next place of a character, and gives the text from
that place on as well. -/
def readField? (start : Text) (stop : Char) (text : Text) : Option (Text × Text) :=
  (Text.behind? start text).map fun rest => (rest.takeWhile (· ≠ stop), rest.dropWhile (· ≠ stop))

namespace Record

/-- Reads a line of JSON without its line break. -/
def ofLine? (line : Text) : Option Record := do
  let (time, line) ← readField? "\x7b\"ts\":".toList ',' line
  let (level, line) ← readField? ",\"level\":\"".toList '"' line
  let (module, line) ← readField? "\",\"module\":\"".toList '"' line
  let line ← Text.behind? "\",\"msg\":\"".toList line
  let (message, line) ← readMessage? line
  if line = ['}'] then some ⟨Level.parse level, module, message, readWhole time⟩ else none

/-- The records of a stream. -/
def ofStream? (stream : Text) : Option (List Record) :=
  (stream.splitOn '\n').dropLast.mapM ofLine?

end Record

/-- A field is read up to its end if it does not hold the character that ends it. -/
theorem readField?_append {start field next : Text} {stop : Char} (inside : stop ∉ field)
    (ends : next.head? = some stop) (behind : Text) :
    readField? start stop (start ++ (field ++ (next ++ behind))) =
      some (field, next ++ behind) := by
  have passed : ∀ c ∈ field, decide (c ≠ stop) = true := fun c member =>
    decide_eq_true fun same => inside (same ▸ member)
  have halts : ∀ c ∈ (next ++ behind).head?, decide (c ≠ stop) = false := by
    simp [List.head?_append, ends]
  obtain ⟨front, rest⟩ := Text.takeWhile_run passed halts
  rw [readField?, Text.behind?_eq_some_iff.mpr rfl, Option.map_some, front, rest]

/-- A character is read back from how it is written. -/
theorem readMessage?_escapeJsonChar (c : Char) (rest : Text) :
    readMessage? (escapeJsonChar c ++ rest) =
      (readMessage? rest).map fun read => (c :: read.1, read.2) := by
  rcases escapeJsonChar_cases c with
    ⟨letter, _, named, written⟩ | ⟨noQuote, noBackslash, _, written⟩
  · rw [written, List.cons_append, List.singleton_append, readMessage?, named]
    cases readMessage? rest <;> rfl
  · rw [written, List.singleton_append, readMessage?]
    · cases readMessage? rest <;> rfl
    · exact noQuote
    · exact fun _ _ isBackslash => absurd isBackslash noBackslash

/-- A message is read back up to the quote behind it. -/
theorem readMessage?_flatMap (message behind : Text) :
    readMessage? (message.flatMap escapeJsonChar ++ '"' :: behind) = some (message, behind) := by
  induction message with
  | nil => rfl
  | cons c rest ih =>
    rw [List.flatMap_cons, List.append_assoc, readMessage?_escapeJsonChar, ih]
    rfl

/-- A whole number is written with digits and a minus. -/
theorem not_mem_wholeNumber {c : Char} (noDigit : c.isDigit = false) (noMinus : c ≠ '-')
    (value : Int) : c ∉ wholeNumber value := by
  have absent (number : Nat) : c ∉ Text.decimal number := fun member => by
    rw [Text.isDigit_of_mem_decimal member] at noDigit
    cases noDigit
  cases value with
  | ofNat number => exact absent number
  | negSucc number => exact List.not_mem_cons_of_ne_of_not_mem noMinus (absent (number + 1))

/-- A whole number is read back. -/
theorem readWhole_wholeNumber (value : Int) : readWhole (wholeNumber value) = value := by
  have digits (number : Nat) : Nat.ofDigitChars 10 (Text.decimal number) 0 = number :=
    Nat.ofDigitChars_ten_toDigits
  cases value with
  | ofNat number =>
    have noMinus (rest : Text) : Text.decimal number ≠ '-' :: rest := fun whole => by
      have digit : '-'.isDigit = true :=
        Text.isDigit_of_mem_decimal (whole ▸ List.mem_cons_self)
      cases digit
    rw [wholeNumber, readWhole, digits]
    · rfl
    · exact noMinus
  | negSucc number =>
    rw [wholeNumber, readWhole, digits]
    rfl

/-- The name of a level is read as that level, and has neither a quote nor a line break. -/
theorem parse_name (level : Level) :
    Level.parse level.name = level ∧ '"' ∉ level.name ∧ '\n' ∉ level.name := by
  cases level <;> decide

/-- The line break of a message is written as an escape. -/
theorem break_not_mem_escaped (message : Text) : '\n' ∉ message.flatMap escapeJsonChar := by
  intro member
  obtain ⟨c, _, written⟩ := List.mem_flatMap.mp member
  rcases escapeJsonChar_cases c with ⟨letter, named, _, shape⟩ | ⟨_, _, notEscaped, shape⟩
  · rw [shape, List.mem_cons, List.mem_singleton] at written
    rcases written with isBackslash | rfl
    · exact absurd isBackslash (by decide)
    · exact absurd named (by decide)
  · rw [shape, List.mem_singleton] at written
    exact notEscaped (.inl written.symm)

namespace Record

/-- A record whose module can be told from what is behind it, in its line and in a stream. -/
structure Separate (record : Record) : Prop where
  noQuote : '"' ∉ record.module
  noBreak : '\n' ∉ record.module

instance (record : Record) : Decidable record.Separate :=
  decidable_of_iff ('"' ∉ record.module ∧ '\n' ∉ record.module)
    ⟨fun both => ⟨both.1, both.2⟩, fun separate => ⟨separate.noQuote, separate.noBreak⟩⟩

/-- A line without its line break is made of the fields that are read, one behind the other. -/
theorem jsonObject_eq (record : Record) :
    record.jsonObject =
      "\x7b\"ts\":".toList ++ (wholeNumber record.millis ++
        (",\"level\":\"".toList ++ (record.level.name ++
          ("\",\"module\":\"".toList ++ (record.module ++
            ("\",\"msg\":\"".toList ++ (record.message.flatMap escapeJsonChar ++
              ['"', '}']))))))) := by
  have time : "\x7b\"ts\":".toList = '{' :: quote "ts".toList ++ [':'] := by decide
  have level : ",\"level\":\"".toList = ',' :: quote "level".toList ++ [':', '"'] := by decide
  have module : "\",\"module\":\"".toList = ['"', ','] ++ quote "module".toList ++ [':', '"'] := by
    decide
  have message : "\",\"msg\":\"".toList = ['"', ','] ++ quote "msg".toList ++ [':', '"'] := by
    decide
  unfold jsonObject
  simp only [time, level, module, message, quote, List.append_assoc, List.cons_append,
    List.nil_append]

/-- A record is read back from its line. -/
theorem ofLine?_jsonObject {record : Record} (separate : record.Separate) :
    ofLine? record.jsonObject = some record := by
  obtain ⟨level, levelEnds, _⟩ := parse_name record.level
  have timeEnds := not_mem_wholeNumber (c := ',') (by decide) (by decide) record.millis
  have message (rest : Text) :
      Text.behind? "\",\"msg\":\"".toList ("\",\"msg\":\"".toList ++ rest) = some rest :=
    Text.behind?_eq_some_iff.mpr rfl
  rw [jsonObject_eq, ofLine?, readField?_append timeEnds (by decide), Option.bind_eq_bind,
    Option.bind_some]
  dsimp only
  rw [readField?_append levelEnds (by decide), Option.bind_some]
  dsimp only
  rw [readField?_append separate.noQuote (by decide), Option.bind_some]
  dsimp only
  rw [message, Option.bind_eq_bind, Option.bind_some, readMessage?_flatMap, Option.bind_some]
  dsimp only
  rw [if_pos rfl, level, readWhole_wholeNumber]

/-- A line without its line break has no other one. -/
theorem break_not_mem_jsonObject {record : Record} (separate : record.Separate) :
    '\n' ∉ record.jsonObject := by
  obtain ⟨_, _, level⟩ := parse_name record.level
  have time := not_mem_wholeNumber (c := '\n') (by decide) (by decide) record.millis
  have message := break_not_mem_escaped record.message
  rw [jsonObject_eq]
  simp only [List.mem_append, time, level, separate.noBreak, message, false_or]
  decide

/-- A stream is cut into the lines of its records. Nothing is left behind the last line break. -/
theorem splitOn_stream {records : List Record} (separate : ∀ record ∈ records, record.Separate) :
    (records.flatMap jsonLine).splitOn '\n' = records.map jsonObject ++ [[]] := by
  induction records with
  | nil => rfl
  | cons record rest ih =>
    obtain ⟨first, others⟩ := List.forall_mem_cons.mp separate
    rw [List.flatMap_cons, jsonLine_eq, List.append_assoc, List.singleton_append,
      List.splitOn_append_cons_self_of_not_mem (break_not_mem_jsonObject first), ih others]
    rfl

/-- Records are read back from their lines. -/
theorem mapM_ofLine? {records : List Record} (separate : ∀ record ∈ records, record.Separate) :
    (records.map jsonObject).mapM ofLine? = some records := by
  induction records with
  | nil => rfl
  | cons record rest ih =>
    obtain ⟨first, others⟩ := List.forall_mem_cons.mp separate
    rw [List.map_cons, List.mapM_cons, ofLine?_jsonObject first, ih others]
    rfl

/-- Records are read back from their stream. -/
theorem ofStream?_stream {records : List Record} (separate : ∀ record ∈ records, record.Separate) :
    ofStream? (records.flatMap jsonLine) = some records := by
  rw [ofStream?, splitOn_stream separate, List.dropLast_concat, mapM_ofLine? separate]

/-- The stream of any records has a line for each of them. It is cut into these lines at its line
breaks, and they are read back as the records. So no other records have this stream. -/
theorem stream_read_back (records : List Record)
    (separate : ∀ record ∈ records, record.Separate) :
    (∃ lines, (records.flatMap jsonLine).splitOn '\n' = lines ++ [[]] ∧
        lines.length = records.length ∧ lines.mapM ofLine? = some records) ∧
      ∀ others, (∀ record ∈ others, record.Separate) →
        others.flatMap jsonLine = records.flatMap jsonLine → others = records := by
  constructor
  · exact ⟨records.map jsonObject, splitOn_stream separate, List.length_map _,
      mapM_ofLine? separate⟩
  · intro others separateOthers same
    have read := ofStream?_stream separateOthers
    rw [same, ofStream?_stream separate] at read
    exact (Option.some.inj read).symm

/-- Two records. The message of the first one ends like a record and goes on like another one. -/
def forgedRecords : List Record :=
  [⟨.warn, "a\\b".toList, "\"\x7d\n\x7b\"ts\":0,\\".toList, -1⟩, ⟨.off, [], [], 0⟩]

/-- Such a message does not pass for a record: there are two lines, and two records in them. -/
theorem forgedRecords_read_back :
    (∀ record ∈ forgedRecords, record.Separate) ∧
      (∃ lines, (forgedRecords.flatMap jsonLine).splitOn '\n' = lines ++ [[]] ∧ lines.length = 2 ∧
        lines.mapM ofLine? = some forgedRecords) ∧
      ∀ others, (∀ record ∈ others, record.Separate) →
        others.flatMap jsonLine = forgedRecords.flatMap jsonLine → others = forgedRecords := by
  have separate : ∀ record ∈ forgedRecords, record.Separate := by decide
  exact ⟨separate, stream_read_back forgedRecords separate⟩

end Record

end CommentMarkdown.Log
