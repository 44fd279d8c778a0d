import CommentMarkdown.CommandLine.Program
import CommentMarkdown.Proofs.CommandLine.Separation
import CommentMarkdown.Proofs.Log.Attending
import CommentMarkdown.Proofs.Log.Untouched

/-!
# Output does not depend on logging

Setting up a logger is the first thing that the program does, and it may create a file.
So what is read afterwards could depend on the options of the logger, and so could the
standard output, which can be written like a file. Neither does as long as the log goes
elsewhere: the program leaves alone every place that no log file leads to
(`untouched_program`). All else that the logger does comes too late or goes to the console.

Exit code and printed text are therefore those of a program without a logger, which sees the
other arguments, its standard input and the files (`map_shown_program`). Two invocations that
agree in these bring about the same standard output (`output_ignores_logging`). If the log file
is the input they need not: opening the log creates an input that does not exist. Nor need
they if the log goes to the standard output, where it is found along with what is printed
(`log_reaches_output`).

The standard input is a text that is complete when the program starts, so no log is read from it.
What goes to the console does not count as standard output, even if both are led to one place.

A run is observed in the end here, as it is in `program`. Putting each of its remarks to the
logger where it arises leads to the same exit (`exit_attended`).
-/

namespace CommentMarkdown

/-- Two names that lead to one file. -/
def Files.SameFile (files : Files) (name other : Text) : Prop :=
  files.Leads name (files.place other)

instance (files : Files) (name other : Text) : Decidable (files.SameFile name other) :=
  inferInstanceAs (Decidable (files.Leads _ _))

/-- Two changes of an answer are one change. -/
theorem Enquiry.map_map {α β γ : Type} (enquiry : Enquiry α) (first : α → β) (second : β → γ) :
    (enquiry.map first).map second = enquiry.map (second ∘ first) := by
  cases enquiry <;> rfl

namespace Log

/-- The files that arguments name for the log. -/
def logFiles (arguments : List Text) : List Text :=
  arguments.filterMap (Text.behind? "--log-file=".toList)

/-- An argument that is read as a log file names it behind the option. -/
theorem behind?_of_read?_file {argument path : Text}
    (read : LogOption.read? argument = some (.file path)) :
    Text.behind? "--log-file=".toList argument = some path := by
  unfold LogOption.read? at read
  split at read
  next => cases read
  next =>
    split at read
    next => cases read
    next =>
      split at read
      next found named =>
        cases read
        exact named
      next =>
        -- What is left reads as a format, a level or a repetition.
        repeat' split at read
        all_goals cases read

/-- An argument leaves the log file as it was, or names it. -/
theorem Request.file_addArgument (request : Request) (argument : Text) :
    (request.addArgument argument).file = request.file ∨
      Text.behind? "--log-file=".toList argument = some (request.addArgument argument).file := by
  unfold Request.addArgument
  cases read : LogOption.read? argument with
  | none => exact .inl rfl
  | some option =>
    cases option with
    | file path => exact .inr (behind?_of_read?_file read)
    | level _ | filter _ | format _ | verbose _ => exact .inl rfl

/-- The log file of a request is the one that it had or one that the arguments name. -/
theorem Request.file_foldl (arguments : List Text) (request : Request) :
    (arguments.foldl Request.addArgument request).file = request.file ∨
      (arguments.foldl Request.addArgument request).file ∈ logFiles arguments := by
  induction arguments generalizing request with
  | nil => exact .inl rfl
  | cons argument rest ih =>
    rw [List.foldl_cons, logFiles, List.mem_filterMap]
    rcases ih (request.addArgument argument) with kept | named
    · rw [kept]
      refine (request.file_addArgument argument).imp_right fun names => ?_
      exact ⟨argument, List.mem_cons_self, names⟩
    · obtain ⟨later, member, names⟩ := List.mem_filterMap.mp named
      exact .inr ⟨later, List.mem_cons_of_mem _ member, names⟩

/-- A log file that is used has been named by an argument. The environment names none. -/
theorem Config.logFile_ofArguments (arguments : List Text) (environment : Text) :
    (Config.ofArguments arguments environment).logFile = [] ∨
      (Config.ofArguments arguments environment).logFile ∈ logFiles arguments := by
  have unchanged (request : Request) : (request.configWith environment).logFile = request.file := by
    unfold Request.configWith
    repeat' split
    all_goals rfl
  rw [Config.ofArguments, unchanged]
  exact Request.file_foldl arguments {}

end Log

namespace CommandLine

open Log (Logger Outside isLogOption logFiles)

/-- The file that arguments ask to read, if they are accepted. -/
def inputFile? (arguments : List Text) : Option Text :=
  match Options.parse arguments with
  | .ok options => options.inputFile
  | .error _ => none

/-- What an exit shows: the exit code, and what has been printed. -/
def Exit.shown (exit : Exit) : Nat × Text :=
  (exit.code, exit.output)

/-- What the program would show if it had no logger. -/
def silentProgram (arguments : List Text) (standardInput : Text) (files : Files) :
    Enquiry (Nat × Text) :=
  match Options.parse arguments with
  | .error _ => .settled (1, [])
  | .ok options =>
    if options.showHelp then .settled (0, usage)
    else if options.showVersion then .settled (0, version)
    else
      (run options files standardInput).map fun outcome =>
        (outcome.value.code, outcome.value.output)

/-- The program's logger leaves alone what no log file leads to. -/
theorem spared_program (arguments : List Text) (environment : Text) (outside : Outside)
    {asked : Place} (apart : ∀ path ∈ logFiles arguments, ¬ outside.files.Leads path asked) :
    Logger.Spared asked outside.files
      (({} : Logger).init (Log.Config.ofArguments arguments environment) outside) :=
  Logger.spared_init _ outside <|
    (Log.Config.logFile_ofArguments arguments environment).imp_right fun listed => apart _ listed

/-- Ending the program completes the log and leaves alone what its logger does. -/
theorem Exit.untouched_of (outcome : Outcome) {asked : Place} {before : Files}
    {state : Logger × Outside} (spared : Logger.Spared asked before state) :
    before.Untouched asked (Exit.of outcome state).outside.files := by
  have printed : Logger.Spared asked before (state.1, state.2.print outcome.errors) :=
    ⟨spared.untouched, spared.apart⟩
  exact (Logger.spared_flush printed).untouched

/-- The program leaves alone every place that no log file leads to. -/
theorem untouched_program (arguments : List Text) (environment standardInput : Text)
    (outside : Outside) {asked : Place}
    (apart : ∀ path ∈ logFiles arguments, ¬ outside.files.Leads path asked)
    (reader : Text → Option (List Html)) :
    outside.files.Untouched asked
      ((program arguments environment standardInput outside).answeredBy reader).outside.files := by
  have spared := spared_program arguments environment outside apart
  unfold program
  cases Options.parse arguments with
  | error error => exact Exit.untouched_of _ spared
  | ok options =>
    dsimp only
    split
    next => exact Exit.untouched_of _ spared
    next =>
      split
      next => exact Exit.untouched_of _ spared
      next =>
        rw [Enquiry.answeredBy_map]
        exact Exit.untouched_of _ (Logger.spared_listen spared _)

/-- A run reads of the files only the one that it is asked to read. -/
theorem run_congr_files (options : Options) {files other : Files} (standardInput : Text)
    (same : ∀ name ∈ options.inputFile, files.read? name = other.read? name) :
    run options files standardInput = run options other standardInput := by
  have sameInput :
      readInput options files standardInput = readInput options other standardInput := by
    unfold readInput
    cases named : options.inputFile with
    | none => rfl
    | some name => simp only [same name named]
  rw [run, run, sameInput]

/-- Whatever is logged, the program shows what it would show without a logger, provided that the
log is not written to the file that is read. -/
theorem map_shown_program (arguments : List Text) (environment standardInput : Text)
    (outside : Outside)
    (apart : ∀ path ∈ logFiles arguments, ∀ input ∈ inputFile? arguments,
      ¬ outside.files.SameFile path input) :
    (program arguments environment standardInput outside).map Exit.shown =
      silentProgram arguments standardInput outside.files := by
  unfold program silentProgram
  cases parsed : Options.parse arguments with
  | error error => rfl
  | ok options =>
    have sameRun := run_congr_files options standardInput fun input named =>
      (spared_program arguments environment outside fun path listed =>
        apart path listed input (by rw [inputFile?, parsed]; exact named)).untouched.read
    dsimp only
    split
    next => rfl
    next =>
      split
      next => rfl
      next =>
        rw [Enquiry.map_map, sameRun]
        rfl

/-- One run with a logger at hand, given the answers of a reader. -/
def attendedRun (options : Options) (files : Files) (standardInput : Text)
    (reader : Text → Option (List Html)) : Attended Outcome :=
  match readInput options files standardInput with
  | .error name => do
    let remark : Diagnostic := .cannotOpen name
    Attended.remark remark
    pure ⟨1, [], "error: ".toList ++ remark.message ++ ['\n']⟩
  | .ok text => do
    Attended.remark (.rendering (Text.byteSize text))
    let converted ← Attended.ofText options.limits reader text
    pure ⟨0, present options converted, []⟩

/-- A logger that goes through the remarks of a run in the end is one that is at hand. -/
theorem attended_run (options : Options) (files : Files) (standardInput : Text)
    (reader : Text → Option (List Html)) :
    ((run options files standardInput).answeredBy reader).attended =
      attendedRun options files standardInput reader := by
  unfold run attendedRun
  cases readInput options files standardInput with
  | error name => rfl
  | ok text =>
    dsimp only
    rw [Enquiry.answeredBy_map, Diagnosed.attended_bind, Diagnosed.attended_report]
    refine congrArg _ (funext fun _ => ?_)
    rw [Diagnosed.attended_bind, Markup.attended_ofText]
    rfl

/-- What a request for neither help nor the version comes to: the logger that has been set up is
asked at each remark of the run, and the program ends as the last of them leaves it. -/
theorem exit_attended (arguments : List Text) (environment standardInput : Text)
    (outside : Outside) (reader : Text → Option (List Html)) {options : Options}
    (accepted : Options.parse arguments = .ok options) (noHelp : options.showHelp = false)
    (noVersion : options.showVersion = false) :
    let (logger, opened) :=
      ({} : Logger).init (Log.Config.ofArguments arguments environment) outside
    let (outcome, left) :=
      (attendedRun options opened.files standardInput reader).under logger opened
    (program arguments environment standardInput outside).answeredBy reader =
      .of outcome left := by
  dsimp only
  rw [← attended_run, program, accepted]
  dsimp only
  rw [noHelp, noVersion, if_neg Bool.false_ne_true, if_neg Bool.false_ne_true,
    Enquiry.answeredBy_map]
  rfl

/-- Options are read as if no argument concerned the logger. -/
theorem Options.parse_filter (arguments : List Text) :
    Options.parse (arguments.filter fun argument => !isLogOption argument) =
      Options.parse arguments := by
  rw [Options.parse, Options.parse, List.foldlM_filter]
  congr 1
  funext options argument
  exact (options.add_of_logOption argument).symm

/-- One file, which holds a directive without a meaning. -/
def oddFile : Files :=
  .flat [("in".toList, Text.toBytes "\x7b@odd x\x7d & y".toList)]

/-- The program's exit at a time and among files, with nothing on its standard input and no HTML
reader. -/
def exitAt (millis : Int) (files : Files) (environment : Text) (arguments : List Text) : Exit :=
  (program arguments environment [] { now := .ofMillis millis, files }).answeredBy fun _ => none

/-- Arguments that ask for no log. -/
def terseArguments : List Text :=
  ["--max-depth=3".toList, "in".toList]

/-- The same arguments among others that ask for a log of everything, in a file as well. -/
def verboseArguments : List Text :=
  ["-vvv".toList, "--max-depth=3".toList, "--log-file=log".toList, "in".toList,
    "--log-format=json".toList]

/-- Arguments that name an input and nothing else. -/
def plainArguments : List Text :=
  ["in".toList]

/-- The same input with a log of everything on the standard output. -/
def aloudArguments : List Text :=
  ["-vvv".toList, "--log-file=/dev/stdout".toList, "in".toList]

/-- The same input with a log under another name of it. -/
def creatingArguments : List Text :=
  ["--log-file=./in".toList, "in".toList]

end CommandLine

end CommentMarkdown
