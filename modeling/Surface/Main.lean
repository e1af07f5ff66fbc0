import Surface.Command.Run
import Surface.Snapshot

/-! The program: it runs a command on the snapshot of a project that it reads from its input. -/

namespace Surface

/-- The text of a stream, from where it stands to its end. -/
partial def readToEnd (stream : IO.FS.Stream) (text : String) : IO String := do
  let line ← stream.getLine
  if line.isEmpty then return text else readToEnd stream (text ++ line)

end Surface

open Surface in
/-- Prints what the arguments ask for, of the project on standard input. -/
def main (arguments : List String) : IO UInt32 := do
  let text ← readToEnd (← IO.getStdin) ""
  match (Json.parse? text).bind Snapshot.ofJson? with
  | none =>
    IO.eprintln "Error: no snapshot of a project on standard input"
    return 1
  | some snapshot =>
    let variableValue ← IO.getEnv Config.variableName
    let report := Report.ofArguments snapshot.fs snapshot.parsing variableValue arguments
    IO.print report.output
    if let some message := report.message then
      IO.eprintln message
    return report.exitCode.toUInt32
