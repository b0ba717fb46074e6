import PhraseTable.Duration
import PhraseTable.Run.CommandLine
import PhraseTable.Run.Program
import PhraseTable.Text.Bytes

/-!
# The program

Reads the command line, and runs on the files of the system with a real stopwatch. The table goes to
the standard output and the log to the standard error. Files, streams and arguments are byte
strings.
-/

set_option autoImplicit false

namespace PhraseTable.Run

/-- What stands under a file name. -/
def lookUpFile (name : String) : IO (Option FileEntry) := do
  let some decoded := Text.decoded? name | return none
  try
    let path ← IO.FS.realPath decoded
    if ← path.isDir then return some .directory
    return some (.text (Text.read (← IO.FS.readBinFile path)))
  catch
    | .noFileOrDirectory .. => return none
    | _ => return some .locked

/-- Writes lines. -/
def writeLines (stream : IO.FS.Stream) (lines : List String) : IO Unit := do
  for line in lines do
    stream.write (Text.written (line ++ "\n"))
  stream.flush

/-- The files, streams and clock of the system. -/
def systemEnvironment (watch : IO.Ref Stopwatch) : Environment IO where
  lookUp := lookUpFile
  log lines := do writeLines (← IO.getStderr) lines
  print lines := do writeLines (← IO.getStdout) lines
  restart := do watch.set ⟨← IO.monoNanosNow⟩
  elapsed := do return (← watch.get).text (← IO.monoNanosNow)
  schedule := .inTurn

/-- The settings of the command line, and behind them those of the settings file that it names. -/
def allSettings (arguments : List String) : IO (Except String Settings) := do
  match readArguments arguments with
  | .error error => return .error error.message
  | .ok settings =>
    match settings.value? settingsName with
    | none => return .ok settings
    | some name =>
      match contentOf name (← lookUpFile name) with
      | .error error => return .error error.message
      | .ok content =>
        match readSettings content with
        | .error error => return .error error.message
        | .ok others => return .ok (settings ++ others)

end PhraseTable.Run

open PhraseTable.Run

/-- Runs the program and gives its exit status. -/
def main (arguments : List String) : IO UInt32 := do
  match ← allSettings (arguments.map PhraseTable.Text.encoded) with
  | .error message =>
    writeLines (← IO.getStderr) [message, helpText]
    return 1
  | .ok settings =>
    if (settings.value? helpName).isSome then
      writeLines (← IO.getStdout) [helpText]
      return 0
    match settings.options with
    | .error error =>
      writeLines (← IO.getStderr) [error.message, helpText]
      return 1
    | .ok options =>
      let watch ← IO.mkRef (PhraseTable.Stopwatch.mk (← IO.monoNanosNow))
      return (← (systemEnvironment watch).run options).toUInt32
