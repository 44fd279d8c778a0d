import CommentMarkdown.Log.Buffer
import CommentMarkdown.Log.Level

/-!
# Log records

A record is one message with its severity and the part of the program that it
comes from. It is written as one line of text that begins with the time of day,
or as one line of JSON that carries the time as a number. Both forms end with the
only line break that they add themselves. A stream is given a line in pieces, which
make it up in order (`flatMap_text_pieces`).
-/

namespace CommentMarkdown.Log

/-- A message on its way to the sinks. -/
structure Record where
  level : Level
  module : Text
  message : Text
  /-- When it was made, in milliseconds since the start of 1970. -/
  millis : Int
  deriving DecidableEq, Repr

/-- How records are written. -/
inductive Format
  | text
  | json
  deriving DecidableEq, Repr

/-- The terminal's code for the colour of a level. -/
def Level.color : Level → Text
  | trace => "\x1b[90m".toList
  | debug => "\x1b[36m".toList
  | info => "\x1b[32m".toList
  | warn => "\x1b[33m".toList
  | error => "\x1b[31m".toList
  | fatal => "\x1b[1;31m".toList
  | off => []

/-- The terminal's code for its usual colour. -/
def colorReset : Text := "\x1b[0m".toList

/-- The name of a level, filled up with blanks to five characters. -/
def Level.column (level : Level) : Text :=
  level.name.rightpad 5 ' '

/-- A character of a message inside a JSON string. -/
def escapeJsonChar (c : Char) : Text :=
  if c = '"' then ['\\', '"']
  else if c = '\\' then ['\\', '\\']
  else if c = '\n' then ['\\', 'n']
  else if c = '\r' then ['\\', 'r']
  else if c = '\t' then ['\\', 't']
  else [c]

/-- A character of a message as a piece of a JSON string. -/
def jsonPiece (c : Char) : Piece :=
  if escapeJsonChar c = [c] then .single c else .whole (escapeJsonChar c)

/-- A whole number in decimal. -/
def wholeNumber : Int → Text
  | .ofNat number => Text.decimal number
  | .negSucc number => '-' :: Text.decimal (number + 1)

namespace Record

/-- A record as a line of text behind the time of day. -/
def textLine (record : Record) (clock : Text) (colored : Bool) : Text :=
  let level :=
    if colored then record.level.color ++ record.level.column ++ colorReset
    else record.level.column
  clock ++ ' ' :: level ++ " [".toList ++ record.module ++ "] ".toList ++ record.message ++ ['\n']

/-- A record as a line of JSON. -/
def jsonLine (record : Record) : Text :=
  "\x7b\"ts\":".toList ++ wholeNumber record.millis ++ [','] ++
    "\"level\":\"".toList ++ record.level.name ++ "\",".toList ++
    "\"module\":\"".toList ++ record.module ++ "\",".toList ++
    "\"msg\":\"".toList ++ record.message.flatMap escapeJsonChar ++ "\"\x7d\n".toList

/-- A record as a line without colours. -/
def line (record : Record) (clock : Text) : Format → Text
  | .text => record.textLine clock false
  | .json => record.jsonLine

/-- The pieces that a stream is given for a record's line. -/
def pieces (record : Record) (clock : Text) : Format → List Piece
  | .text =>
    let name := record.level.name
    [.whole clock, .whole [' '], .whole name] ++
      List.replicate (5 - name.length) (.single ' ') ++
      [.whole " [".toList, .whole record.module, .whole "] ".toList, .whole record.message,
        .whole ['\n']]
  | .json =>
    [.whole "\x7b\"ts\":".toList, .whole (wholeNumber record.millis), .whole [','],
        .whole "\"level\":\"".toList, .whole record.level.name, .whole "\",".toList,
        .whole "\"module\":\"".toList, .whole record.module, .whole "\",".toList,
        .whole "\"msg\":\"".toList] ++
      record.message.map jsonPiece ++ [.whole "\"\x7d\n".toList]

/-- The text of a character's piece is how the character is written. -/
theorem text_jsonPiece (c : Char) : (jsonPiece c).text = escapeJsonChar c := by
  unfold jsonPiece
  split
  next plain => exact plain.symm
  next => rfl

/-- The pieces of a record make up its line. -/
theorem flatMap_text_pieces (record : Record) (clock : Text) (format : Format) :
    (record.pieces clock format).flatMap Piece.text = record.line clock format := by
  have padding (size : Nat) :
      (List.replicate size (Piece.single ' ')).flatMap Piece.text = List.replicate size ' ' := by
    induction size with
    | zero => rfl
    | succ size ih => rw [List.replicate_succ, List.flatMap_cons, ih]; rfl
  cases format with
  | text =>
    simp only [pieces, line, textLine, Level.column, List.rightpad, List.flatMap_append,
      List.flatMap_cons, List.flatMap_nil, Piece.text, padding, List.append_assoc,
      List.cons_append, List.nil_append, List.append_nil, Bool.false_eq_true, if_false]
  | json =>
    unfold pieces line jsonLine
    dsimp only
    simp only [List.flatMap_append, List.flatMap_map, text_jsonPiece]
    simp only [List.flatMap_cons, List.flatMap_nil, Piece.text]
    simp only [List.append_assoc, List.append_nil]

end Record

end CommentMarkdown.Log
