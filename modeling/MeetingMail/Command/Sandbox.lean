import MeetingMail.Command.Files
import MeetingMail.Command.Run

/-!
A host whose surroundings are a value, so that whole runs can be computed and reasoned about.

* `SandboxM` is what is done in a sandbox. It may wait for ever, and then it has no answer.
* `Sandbox.take` and `Sandbox.store` read and write, whatever a path leads to.
* `Sandbox.command` is the whole program.
-/

namespace MeetingMail

/-- The surroundings of a run: what it finds, and what it leaves behind. -/
structure Sandbox where
  files : Files
  /-- What is left of the standard input. -/
  input : ByteArray := .empty
  /-- What becomes of a text that is written to the standard input. -/
  inputUptake : Uptake := .all
  /-- What the standard output is connected to. -/
  device : Device := .pipe
  /-- The text on the standard output. -/
  output : Text := []
  log : List Event := []

/-- What is done in a sandbox. If it waits for ever it has no answer, but what it has done until
then stays. -/
abbrev SandboxM := OptionT (StateM Sandbox)

namespace Sandbox

/-- All that a reader gets of a source. There is none if the reader never comes to the end. -/
def held? (s : Sandbox) : Source → Option ByteArray
  | .content bytes => some bytes
  | .special (.device d) => d.content?
  | .special .input => some s.input
  | .special .output => s.device.content?

/-- What is left once a source has been read. Only the standard input is used up by it. -/
def drained (s : Sandbox) : Source → Sandbox
  | .special .input => { s with input := .empty }
  | _ => s

/-- What becomes of a text that is written to a sink. -/
def uptake (s : Sandbox) : Sink → Uptake
  | .file _ => .all
  | .special (.device d) => d.uptake
  | .special .input => s.inputUptake
  | .special .output => s.device.uptake

/-- What is left once a sink has taken a text. -/
def stored (s : Sandbox) (content : Text) : Sink → Sandbox
  | .file location => { s with files := s.files.put location content.encode }
  | .special (.device _) => s
  | .special .input => { s with input := s.input ++ content.encode }
  | .special .output => { s with output := s.output ++ content }

/-- Reads a source to its end. -/
def take (source : Source) : SandboxM ByteArray := do
  match (← get).held? source with
  | some bytes =>
      modify (·.drained source)
      return bytes
  | none => failure

/-- Writes a text to a sink. -/
def store (content : Text) (sink : Sink) : SandboxM (Except Fault Unit) := do
  match (← get).uptake sink with
  | .all =>
      modify (·.stored content sink)
      return .ok ()
  | .nothing => return .error .noSpace
  | .stalled => failure

/-- The operations of the host, which change nothing but the surroundings. -/
def host : Host SandboxM where
  readFile path := do
    match (← get).files.source path with
    | .error fault => return .error fault
    | .ok source => return .ok (← take source)
  readInput := do return .ok (← take (.special .input))
  writeFile path content := do
    match (← get).files.sink path with
    | .error fault => return .error fault
    | .ok sink => store content sink
  writeOutput content := store content (.special .output)
  log event := modify fun s => { s with log := s.log ++ [event] }
  rejectArguments := pure ()

/-- The answer of an action in some surroundings, if it has one, and what it leaves behind. -/
def runIn {α : Type} (s : Sandbox) (action : SandboxM α) : Option α × Sandbox :=
  StateT.run action.run s

/-- How the program ends in some surroundings, if it does, and what it leaves behind. -/
def command (args : List Text) (s : Sandbox) : Option Exit × Sandbox := s.runIn (host.command args)

/-- Holds if the program ends, and with this exit code. -/
def ExitsWith (s : Sandbox) (args : List Text) (code : UInt32) : Prop :=
  (s.command args).1.map Exit.code = some code

instance (s : Sandbox) (args : List Text) (code : UInt32) : Decidable (s.ExitsWith args code) :=
  inferInstanceAs (Decidable (_ = _))

end Sandbox

end MeetingMail
