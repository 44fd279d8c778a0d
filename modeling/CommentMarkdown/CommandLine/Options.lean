import CommentMarkdown.Hover
import CommentMarkdown.Limits
import CommentMarkdown.Log.Option

/-!
# Options of the command line

Each argument that does not concern the logger is an option or the name of the
input. Arguments are read from left to right, and the first one that cannot be
accepted is reported. Of several options of one kind the last one counts. A lone
dash stands for the standard input: it names nothing, but like a name it is
refused once a file has been named.
-/

namespace CommentMarkdown.CommandLine

/-- What the command line asks for. -/
structure Options where
  /-- The file to read; the standard input if there is none. -/
  inputFile : Option Text := none
  /-- The signature of a hover; without one the Markdown alone is wanted. -/
  signature : Option Text := none
  language : Text := Hover.defaultLanguage
  limits : Limits := {}
  showHelp : Bool := false
  showVersion : Bool := false
  deriving DecidableEq, Repr

/-- Why an argument is not accepted. -/
inductive UsageError
  /-- A depth that is no positive number that a machine word holds. -/
  | invalidDepth (value : Text)
  | unknownOption (argument : Text)
  | unexpectedArgument (argument : Text)
  deriving DecidableEq, Repr

/-- The wording of an error. -/
def UsageError.message : UsageError → Text
  | invalidDepth value => "invalid --max-depth value '".toList ++ value ++ ['\'']
  | unknownOption argument => "unknown option '".toList ++ argument ++ ['\'']
  | unexpectedArgument argument => "unexpected argument '".toList ++ argument ++ ['\'']

/-- The number that decimal digits stand for. -/
def digitsValue (digits : Text) : Nat :=
  digits.foldl (fun value digit => 10 * value + (digit.toNat - '0'.toNat)) 0

/-- The greatest depth: the greatest number of 64 bits. -/
def greatestDepth : Nat := 18446744073709551615

/-- Reads a depth: digits only, at least one, and a value from one to the greatest depth. -/
def parseDepth? (value : Text) : Option Nat :=
  if value ≠ [] ∧ value.all Char.isDigit then
    if 1 ≤ digitsValue value ∧ digitsValue value ≤ greatestDepth then some (digitsValue value)
    else none
  else none

namespace Options

/-- Takes an argument into account that does not concern the logger. -/
def addArgument (options : Options) (argument : Text) : Except UsageError Options :=
  if argument = "--help".toList ∨ argument = "-h".toList then
    .ok { options with showHelp := true }
  else if argument = "--version".toList ∨ argument = "-V".toList then
    .ok { options with showVersion := true }
  else if let some signature := Text.behind? "--signature=".toList argument then
    .ok { options with signature := some signature }
  else if let some language := Text.behind? "--language=".toList argument then
    .ok { options with language }
  else if let some value := Text.behind? "--max-depth=".toList argument then
    match parseDepth? value with
    | some depth => .ok { options with limits := ⟨depth, depth⟩ }
    | none => .error (.invalidDepth value)
  else if argument.head? = some '-' ∧ argument ≠ ['-'] then .error (.unknownOption argument)
  else if options.inputFile.isSome then .error (.unexpectedArgument argument)
  else if argument = ['-'] then .ok options
  else .ok { options with inputFile := some argument }

/-- Takes any argument into account. -/
def add (options : Options) (argument : Text) : Except UsageError Options :=
  if Log.isLogOption argument then .ok options else options.addArgument argument

/-- Reads the arguments of a command line. -/
def parse (arguments : List Text) : Except UsageError Options :=
  arguments.foldlM add {}

end Options

end CommentMarkdown.CommandLine
