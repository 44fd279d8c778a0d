import CommentMarkdown.Log.Logger

/-!
# Logging options

Some arguments of the command line concern the logger only. Reading them is a
function from one argument to one option. Whoever reads the other arguments has to
pass over these, and tells them by their form, without reading them.

Of several options of one kind the last one counts. The level may also be asked
for by how often more output is wanted, but a level that is given by name wins over
that wherever it stands. If neither a level nor a filter is asked for at all, the
environment may say either: a text with an equals sign or a comma is a filter, any
other text is a level.
-/

namespace CommentMarkdown.Log

/-- What one argument says about the logger. -/
inductive LogOption
  | level (level : Level)
  | filter (description : Text)
  | file (path : Text)
  | format (format : Format)
  /-- More output is wanted, so many times over. -/
  | verbose (times : Nat)
  deriving DecidableEq, Repr

/-- The format that a word names; any word but one is plain text. -/
def Format.parse (word : Text) : Format :=
  if word = "json".toList ∨ word = "JSON".toList then .json else .text

/-- The number of letters in a dash followed by letters v only; zero for anything else. -/
def verbosity : Text → Nat
  | '-' :: letters => if letters.all (· = 'v') then letters.length else 0
  | _ => 0

namespace LogOption

/-- Reads an argument, if it concerns the logger. -/
def read? (argument : Text) : Option LogOption :=
  if let some word := Text.behind? "--log-level=".toList argument then some (.level (Level.parse word))
  else if let some description := Text.behind? "--log-filter=".toList argument then
    some (.filter description)
  else if let some path := Text.behind? "--log-file=".toList argument then some (.file path)
  else if let some word := Text.behind? "--log-format=".toList argument then
    some (.format (Format.parse word))
  else if argument = "-q".toList ∨ argument = "--quiet".toList then some (.level .error)
  else if argument = "--verbose".toList then some (.verbose 1)
  else if 0 < verbosity argument then some (.verbose (verbosity argument))
  else none

end LogOption

/-- The beginnings of options that have a value. -/
def valueOptions : List Text :=
  ["--log-level=".toList, "--log-filter=".toList, "--log-file=".toList, "--log-format=".toList]

/-- The options that are one word. -/
def wordOptions : List Text :=
  ["-q".toList, "--quiet".toList, "--verbose".toList]

/-- Whether an argument concerns the logger, by its form alone. -/
def isLogOption (argument : Text) : Bool :=
  valueOptions.any (fun start => start.isPrefixOf argument) || wordOptions.contains argument ||
    0 < verbosity argument

/-- What the options read so far ask for. -/
structure Request where
  level : Option Level := none
  filter : Option Text := none
  file : Text := []
  format : Format := .text
  /-- The most output that is wanted by repetition. -/
  verbosity : Nat := 0
  deriving DecidableEq, Repr

namespace Request

/-- Takes one more option into account. -/
def add (request : Request) : LogOption → Request
  | .level level => { request with level := some level }
  | .filter description => { request with filter := some description }
  | .file path => { request with file := path }
  | .format format => { request with format }
  | .verbose times => { request with verbosity := max request.verbosity times }

/-- Takes one more argument into account, if it concerns the logger. -/
def addArgument (request : Request) (argument : Text) : Request :=
  match LogOption.read? argument with
  | some option => request.add option
  | none => request

/-- The level that is asked for, by name or by repetition. -/
def wantedLevel? (request : Request) : Option Level :=
  request.level.or
    (match request.verbosity with
    | 0 => none
    | 1 => some .info
    | 2 => some .debug
    | _ => some .trace)

/-- The configuration that arguments ask for without a word from the environment. -/
def config (request : Request) : Config :=
  { level := request.wantedLevel?.getD .warn
    format := request.format
    filterSpec := request.filter.getD []
    logFile := request.file }

/-- The configuration with the word of the environment, which counts if the arguments ask
for neither a level nor a filter. -/
def configWith (request : Request) (environment : Text) : Config :=
  if request.wantedLevel?.isSome || request.filter.isSome || environment.isEmpty then request.config
  else if '=' ∈ environment ∨ ',' ∈ environment then
    { request.config with filterSpec := environment }
  else { request.config with level := Level.parse environment }

end Request

/-- The configuration for arguments and the word of the environment, which is empty if there
is none. -/
def Config.ofArguments (arguments : List Text) (environment : Text) : Config :=
  (arguments.foldl Request.addArgument {}).configWith environment

end CommentMarkdown.Log
