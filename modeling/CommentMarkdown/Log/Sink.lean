import CommentMarkdown.Files
import CommentMarkdown.Log.Record
import CommentMarkdown.Log.Stamp

/-!
# Sinks

A sink is where records go: the console, a file, a list kept in memory under a
name, nowhere, or several sinks at once. Everything that can be seen of a written
record is a part of `Outside`, so writing is a function of it.

A file sink does not write every record at once. Its buffer gathers them until it is
full or the sink is flushed, which a severe record brings about by itself. A sink
that appends adds to whatever the file holds by then; one that has emptied the file
on opening goes on at its own offset. Without anything to write the file is left
alone.
-/

namespace CommentMarkdown.Log

/-- What lies outside of the program and can be changed by it. -/
structure Outside where
  now : Stamp
  /-- All text written to the console. -/
  console : Text := []
  /-- All records kept in memory, with the name that they are kept under. -/
  captured : List (Text × Record) := []
  files : Files

namespace Outside

/-- Writes a text to the console. -/
def print (outside : Outside) (text : Text) : Outside :=
  { outside with console := outside.console ++ text }

/-- Keeps a record under a name. -/
def capture (outside : Outside) (id : Text) (record : Record) : Outside :=
  { outside with captured := outside.captured ++ [(id, record)] }

end Outside

/-- A file that records are written to. -/
structure FileSink where
  path : Text
  format : Format
  /-- Whether the file could be opened. A sink that is not open takes no records. -/
  isOpen : Bool
  /-- The offset of the next write, unless writes go to the end of the file. -/
  offset : Option Nat
  /-- What has not been written yet. -/
  buffer : Buffer := {}

namespace FileSink

/-- Opens a file, which is created if need be, and emptied unless it is appended to. -/
def openFile (path : Text) (append : Bool) (format : Format) (outside : Outside) :
    FileSink × Outside :=
  let offset := if append then none else some 0
  let sink : FileSink := ⟨path, format, outside.files.isWritable path, offset, {}⟩
  if sink.isOpen then
    let content := if append then (outside.files.read? path).getD .empty else .empty
    (sink, { outside with files := outside.files.write path content })
  else (sink, outside)

/-- Writes what is due. -/
def writeDue (sink : FileSink) (outside : Outside) : FileSink × Outside :=
  let added := sink.buffer.due
  if added.isEmpty then (sink, outside)
  else
    let written := { sink with buffer := { sink.buffer with due := .empty } }
    match sink.offset with
    | none => (written, { outside with files := outside.files.append sink.path added })
    | some offset =>
      ({ written with offset := some (offset + added.size) },
        { outside with files := outside.files.overwrite sink.path offset added })

/-- Writes what is pending. -/
def flush (sink : FileSink) (outside : Outside) : FileSink × Outside :=
  if sink.isOpen then { sink with buffer := sink.buffer.flush }.writeDue outside
  else (sink, outside)

/-- Takes a record. It is written at once from level `error` on. -/
def take (sink : FileSink) (record : Record) (outside : Outside) : FileSink × Outside :=
  if sink.isOpen then
    let buffer := sink.buffer.putAll (record.pieces outside.now.clock sink.format)
    let buffer := if .error ≤ record.level then buffer.flush else buffer
    { sink with buffer }.writeDue outside
  else (sink, outside)

end FileSink

/-- Where records go. -/
inductive Sink
  | console (format : Format)
  | file (sink : FileSink)
  /-- Keeps records in memory under a name. -/
  | capture (id : Text)
  | null
  /-- Hands each record to several sinks in turn. -/
  | multi (sinks : List Sink)

namespace Sink

mutual

/-- Hands a record to a sink. -/
def take (record : Record) : Sink → Outside → Sink × Outside
  | console format, outside =>
    (console format, outside.print (record.line outside.now.clock format))
  | file sink, outside =>
    let (sink, outside) := sink.take record outside
    (file sink, outside)
  | capture id, outside => (capture id, outside.capture id record)
  | null, outside => (null, outside)
  | multi sinks, outside =>
    let (sinks, outside) := takeAll record sinks outside
    (multi sinks, outside)

/-- Hands a record to each sink of a list in turn. -/
def takeAll (record : Record) : List Sink → Outside → List Sink × Outside
  | [], outside => ([], outside)
  | sink :: rest, outside =>
    let (sink, outside) := take record sink outside
    let (rest, outside) := takeAll record rest outside
    (sink :: rest, outside)

end

mutual

/-- Makes a sink write what is pending. -/
def flush : Sink → Outside → Sink × Outside
  | file sink, outside =>
    let (sink, outside) := sink.flush outside
    (file sink, outside)
  | multi sinks, outside =>
    let (sinks, outside) := flushAll sinks outside
    (multi sinks, outside)
  | sink, outside => (sink, outside)

/-- Makes each sink of a list write what is pending. -/
def flushAll : List Sink → Outside → List Sink × Outside
  | [], outside => ([], outside)
  | sink :: rest, outside =>
    let (sink, outside) := flush sink outside
    let (rest, outside) := flushAll rest outside
    (sink :: rest, outside)

end

end Sink

end CommentMarkdown.Log
