import CommentMarkdown.Diagnostic
import CommentMarkdown.Log.Filter
import CommentMarkdown.Log.Sink

/-!
# The logger

A logger decides which messages are wanted and hands records to its sinks. It has
a filter, and beside it a level of its own that is compared first, so that most
messages are turned away without a look at the filter. A logger without sinks
wants nothing.

Remarks of a computation are gated one by one. Since a computation cannot look at
the logger, listening to it means going through its remarks afterwards.
-/

namespace CommentMarkdown.Log

/-- How a logger is set up. -/
structure Config where
  level : Level := .warn
  format : Format := .text
  /-- A description of the filter; empty for none. -/
  filterSpec : Text := []
  /-- The file to log to; empty for none. -/
  logFile : Text := []
  console : Bool := true
  /-- Whether the console may be coloured, should it be able to. -/
  colors : Bool := true
  deriving DecidableEq, Repr

/-- The filter of a configuration. Modules that the description does not name have the less
severe of the configured level and the description's general threshold. -/
def Config.filter (config : Config) : Filter :=
  let described := Filter.parse { standard := config.level } config.filterSpec
  { described with standard := Level.min config.level described.standard }

/-- What decides about messages and takes records. -/
structure Logger where
  level : Level := .warn
  filter : Filter := {}
  sinks : List Sink := []

namespace Logger

/-- Makes all sinks write what is pending. -/
def flush (logger : Logger) (outside : Outside) : Logger × Outside :=
  let (sinks, outside) := Sink.flushAll logger.sinks outside
  ({ logger with sinks }, outside)

/-- The logger with one more sink behind the others. -/
def addSink (logger : Logger) (sink : Sink) : Logger :=
  { logger with sinks := logger.sinks ++ [sink] }

/-- The logger with a file as one more sink, whether or not the file can be opened. -/
def addFile (logger : Logger) (path : Text) (append : Bool) (format : Format) (outside : Outside) :
    Logger × Outside :=
  let (sink, outside) := FileSink.openFile path append format outside
  (logger.addSink (.file sink), outside)

/-- The logger with the log file of a configuration as a sink, if there is one that can be
opened. A warning goes to the console if it cannot. -/
def addLogFile (logger : Logger) (config : Config) (outside : Outside) : Logger × Outside :=
  if config.logFile = [] then (logger, outside)
  else
    let (sink, outside) := FileSink.openFile config.logFile true config.format outside
    if sink.isOpen then (logger.addSink (.file sink), outside)
    else
      (logger, outside.print
        ("warning: could not open log file: ".toList ++ config.logFile ++ ['\n']))

/-- The logger of a configuration before its log file is opened. -/
def ofConfig (config : Config) : Logger where
  level := config.filter.minLevel
  filter := config.filter
  sinks := if config.console then [.console config.format] else []

/-- Sets a logger up anew. The sinks that it had write what is pending and are gone. -/
def init (config : Config) (logger : Logger) (outside : Outside) : Logger × Outside :=
  let (_, outside) := logger.flush outside
  (ofConfig config).addLogFile config outside

/-- The logger with its level and its filter's general threshold set. The thresholds of
named modules stay. -/
def setLevel (logger : Logger) (level : Level) : Logger :=
  { logger with level, filter := { logger.filter with standard := level } }

/-- The logger with its filter described anew. Its level falls as far as the filter needs
and never rises. -/
def setFilter (logger : Logger) (description : Text) : Logger :=
  let filter := logger.filter.parse description
  { logger with level := Level.min logger.level filter.minLevel, filter }

/-- Whether a message of a level is wanted from a module. -/
def shouldLog (logger : Logger) (level : Level) (module : Text) : Bool :=
  logger.level ≤ level && !logger.sinks.isEmpty && logger.filter.shouldLog level module

/-- Hands a record to all sinks, wanted or not. -/
def log (logger : Logger) (level : Level) (module message : Text) (outside : Outside) :
    Logger × Outside :=
  let record : Record := ⟨level, module, message, outside.now.millis⟩
  let (sinks, outside) := Sink.takeAll record logger.sinks outside
  ({ logger with sinks }, outside)

/-- Hands a record to all sinks if it is wanted. -/
def logWanted (logger : Logger) (level : Level) (module message : Text) (outside : Outside) :
    Logger × Outside :=
  if logger.shouldLog level module then logger.log level module message outside
  else (logger, outside)

/-- Listens to remarks, in order. -/
def listen (logger : Logger) (remarks : List Diagnostic) (outside : Outside) : Logger × Outside :=
  remarks.foldl
    (fun state remark => state.1.logWanted remark.level remark.module remark.message state.2)
    (logger, outside)

/-- Listening keeps the order of remarks, so it can be done in parts. -/
theorem listen_append (logger : Logger) (first second : List Diagnostic) (outside : Outside) :
    logger.listen (first ++ second) outside =
      (logger.listen first outside).1.listen second (logger.listen first outside).2 := by
  simp [listen]

/-- Carries out a computation under the logger: its value, and what listening to it leaves. -/
def observe {α : Type} (logger : Logger) (computation : Diagnosed α) (outside : Outside) :
    α × Logger × Outside :=
  (computation.value, logger.listen computation.log outside)

/-- One thing that a program does with its logger. -/
inductive Step
  | init (config : Config)
  | addSink (sink : Sink)
  | addFile (path : Text) (append : Bool) (format : Format)
  | setLevel (level : Level)
  | setFilter (description : Text)
  | log (level : Level) (module message : Text)
  | logWanted (level : Level) (module message : Text)
  | listen (remarks : List Diagnostic)
  | flush

/-- Does one step. -/
def perform (state : Logger × Outside) : Step → Logger × Outside
  | .init config => state.1.init config state.2
  | .addSink sink => (state.1.addSink sink, state.2)
  | .addFile path append format => state.1.addFile path append format state.2
  | .setLevel level => (state.1.setLevel level, state.2)
  | .setFilter description => (state.1.setFilter description, state.2)
  | .log level module message => state.1.log level module message state.2
  | .logWanted level module message => state.1.logWanted level module message state.2
  | .listen remarks => state.1.listen remarks state.2
  | .flush => state.1.flush state.2

/-- Does several steps in turn. -/
def performAll (state : Logger × Outside) (steps : List Step) : Logger × Outside :=
  steps.foldl perform state

end Logger

end CommentMarkdown.Log
