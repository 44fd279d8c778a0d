import CommentMarkdown.CommandLine.Program
import Std.Time.DateTime.Timestamp

/-!
# The executable

The executable gathers what the program depends on, lets it decide, and carries
out the result. What it gathers is the arguments, the environment, the standard
input, the time, and the content of the file that the arguments ask to read, once
the log file has been opened. What has been logged is added to the log file
whatever that is, be it the input or the standard output. No HTML reader comes
with the executable, so a text that holds a tag pair is treated as plain text.
-/

namespace CommentMarkdown.Main

open CommandLine

/-- The content of a file, if it can be read. A directory has none. -/
def readFile? (name : Text) : IO (Option ByteArray) := do
  try
    let path ← IO.FS.realPath (String.ofList name)
    if ← path.isDir then pure (some .empty)
    else pure (some (← IO.FS.readBinFile path))
  catch _ => pure none

/-- Whether a file can be opened for writing at its end. -/
def canAppend (name : Text) : IO Bool := do
  try
    let _ ← IO.FS.Handle.mk (String.ofList name) .append
    pure true
  catch _ => pure false

/-- Adds bytes at the end of a file. -/
def appendTo (name : Text) (added : ByteArray) : IO Unit := do
  let file ← IO.FS.Handle.mk (String.ofList name) .append
  file.write added

/-- The input under its name, if the options ask to read a file and it can be read. -/
def readFiles : Except UsageError Options → IO (Table ByteArray)
  | .ok { inputFile := some name, .. } => do
    pure ((← readFile? name).toList.map fun content => (name, content))
  | _ => pure []

/-- Runs the program once. -/
def runOnce (arguments : List Text) : IO UInt32 := do
  let environment := ((← IO.getEnv "DOCMD_LOG").getD "").toList
  let config := Log.Config.ofArguments arguments environment
  let options := Options.parse arguments
  let logs ← if config.logFile = [] then pure false else canAppend config.logFile
  let contents ← readFiles options
  let standardInput ←
    if readsStandardInput options then pure (Text.ofBytes (← (← IO.getStdin).readBinToEnd))
    else pure []
  let now ← Std.Time.Timestamp.now
  let outside : Log.Outside :=
    { now := .ofMillis now.toMillisecondsSinceUnixEpoch.val
      files := { contents, isWritable := fun name => logs && name = config.logFile } }
  let exit := (program arguments environment standardInput outside).answeredBy fun _ => none
  if logs then
    let before := (contents.lookup config.logFile).getD .empty
    let after := (exit.outside.files.read? config.logFile).getD .empty
    appendTo config.logFile (after.extract before.size after.size)
  (← IO.getStderr).putStr (String.ofList exit.outside.console)
  (← IO.getStdout).putStr (String.ofList exit.output)
  pure (UInt32.ofNat exit.code)

end CommentMarkdown.Main

/-- The executable's entry point. -/
def main (arguments : List String) : IO UInt32 :=
  CommentMarkdown.Main.runOnce (arguments.map String.toList)
