import CommentMarkdown.CommandLine.Options
import CommentMarkdown.Markup.Convert

/-!
# The program

A run reads one text, converts it and prints it, as it is or as the hover of a
signature. An input that cannot be opened ends the run with an error.

The program around it sets up a logger from the arguments, answers requests for
help and for its version by itself, and leaves every other request to a run. What
goes to the console is records first and the error message after them, if there
is one. The log file is complete when the program ends.
-/

namespace CommentMarkdown.CommandLine

open Log (Logger Outside)

/-- What a run leaves behind. -/
structure Outcome where
  code : Nat
  output : Text
  errors : Text
  deriving DecidableEq, Repr

/-- The name and version of the program. -/
def version : Text := "docmd 0.3.0\n".toList

/-- How the program is used. -/
def usage : Text :=
  version ++
    ("\n" ++
      "Usage: docmd [options] [FILE]\n\n" ++
      "Reads documentation comment text from FILE (or stdin) and prints Markdown.\n\n" ++
      "Options:\n" ++
      "  --signature=<text>   Print a hover: the fenced signature, then the docs\n" ++
      "  --language=<lang>    Fence language for --signature (default: java)\n" ++
      "  --max-depth=<n>      Maximum directive and markup nesting depth\n" ++
      "  --log-level=<level>  trace, debug, info, warn, error, fatal, off\n" ++
      "  --log-filter=<spec>  Per-module levels, e.g. markup=debug,*=warn\n" ++
      "  --log-file=<path>    Also write logs to a file\n" ++
      "  --log-format=<fmt>   text or json\n" ++
      "  -v, -vv, -vvv        More log output\n" ++
      "  -q, --quiet          Only log errors\n" ++
      "  -h, --help           Show this help\n" ++
      "  -V, --version        Show the version\n\n" ++
      "Environment:\n" ++
      "  DOCMD_LOG            Log filter used when --log-filter is not given\n").toList

/-- The text that the options ask to read, or the name of a file that cannot be opened. A file is
taken to be text in UTF-8; where it is not, there are replacement characters. -/
def readInput (options : Options) (files : Files) (standardInput : Text) : Except Text Text :=
  match options.inputFile with
  | none => .ok standardInput
  | some name =>
    match files.read? name with
    | some content => .ok (Text.ofBytes content)
    | none => .error name

/-- What is printed of converted text. -/
def present (options : Options) (markdown : Text) : Text :=
  match options.signature with
  | some signature => (Hover.compose signature markdown options.language).value ++ ['\n']
  | none => markdown ++ ['\n']

/-- One run. -/
def run (options : Options) (files : Files) (standardInput : Text) : Enquiry (Diagnosed Outcome) :=
  match readInput options files standardInput with
  | .error name =>
    let remark : Diagnostic := .cannotOpen name
    .settled ⟨⟨1, [], "error: ".toList ++ remark.message ++ ['\n']⟩, [remark]⟩
  | .ok text =>
    (Markup.ofText options.limits text).map fun converted => do
      Diagnosed.report (.rendering (Text.byteSize text))
      pure ⟨0, present options (← converted), []⟩

/-- What the program leaves behind: its exit code, what it printed, and the rest. -/
structure Exit where
  code : Nat
  output : Text
  outside : Outside

/-- What arrives at the standard output: what is printed, and what is found at its place because it
was there before or has been written under one of its names. Which of it comes first depends on
buffers that are not the program's. -/
def Exit.standardOutput (exit : Exit) : Text × Option ByteArray :=
  (exit.output, exit.outside.files.found? exit.outside.files.output)

/-- Ends the program: the outcome's messages go to the console, and the log is completed. -/
def Exit.of (outcome : Outcome) (state : Logger × Outside) : Exit :=
  let outside := state.2.print outcome.errors
  ⟨outcome.code, outcome.output, (state.1.flush outside).2⟩

/-- Whether the standard input will be read. -/
def readsStandardInput : Except UsageError Options → Bool
  | .ok options => options.inputFile.isNone && !options.showHelp && !options.showVersion
  | .error _ => false

/-- The whole program: its arguments, the word of the environment about logging, its
standard input, and what it finds outside. -/
def program (arguments : List Text) (environment standardInput : Text) (outside : Outside) :
    Enquiry Exit :=
  let state := ({} : Logger).init (Log.Config.ofArguments arguments environment) outside
  match Options.parse arguments with
  | .error error =>
    .settled (.of ⟨1, [], "error: ".toList ++ error.message ++ "\n\n".toList ++ usage⟩ state)
  | .ok options =>
    if options.showHelp then .settled (.of ⟨0, usage, []⟩ state)
    else if options.showVersion then .settled (.of ⟨0, version, []⟩ state)
    else
      (run options state.2.files standardInput).map fun outcome =>
        let (outcome, state) := state.1.observe outcome state.2
        .of outcome state

end CommentMarkdown.CommandLine
