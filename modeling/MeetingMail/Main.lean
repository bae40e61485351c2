import MeetingMail.Command.Run

/-!
The program: runs on the files and streams of the system.
-/

namespace MeetingMail

/-- The fault that an error of the system stands for, told by its number. The sign of the number
depends on the call that met the error. -/
def faultOf (e : IO.Error) : Fault :=
  let is (code number : UInt32) : Bool := code == number || code == 0 - number
  match e with
  | .noFileOrDirectory .. => .notFound
  | .inappropriateType _ code _ =>
      if is code 20 then .notADirectory
      else if is code 21 then .isADirectory
      else .other e.toString.toList
  | .resourceExhausted _ code _ =>
      if is code 28 then .noSpace else .other e.toString.toList
  | .invalidArgument _ code _ =>
      if is code 36 then .nameTooLong else .other e.toString.toList
  | _ => .other e.toString.toList

/-- An action with its errors as faults. -/
def faulty {α : Type} (action : IO α) : IO (Except Fault α) := do
  try
    return .ok (← action)
  catch e =>
    return .error (faultOf e)

/-- The files and streams of the system. -/
def systemHost : Host IO where
  readFile path := faulty (IO.FS.readBinFile (String.ofList path))
  readInput := faulty do (← IO.getStdin).readBinToEnd
  writeFile path content := faulty do
    let file ← IO.FS.Handle.mk (String.ofList path) .write
    file.write content.encode
    file.flush
  writeOutput content := faulty do
    let out ← IO.getStdout
    out.write content.encode
    out.flush
  log event := IO.eprintln (String.ofList event.line)
  rejectArguments :=
    IO.eprintln (String.ofList ("error: invalid arguments\n\n".toList ++ usageText))

end MeetingMail

/-- Runs the program on its arguments. -/
def main (args : List String) : IO UInt32 := do
  return (← MeetingMail.systemHost.command (args.map String.toList)).code
