import MeetingMail.Command.Arguments
import MeetingMail.Command.Failure
import MeetingMail.Settings.Toml

/-!
Runs of the program, over any host that can read, write and keep a log.

* `Host` lists what a run needs from its surroundings.
* `Host.run` loads the settings, reads the summary, renders it and writes the result, in this
  order, and stops at the first step that fails. What the rendering tells goes to the log.
* `Host.command` starts from the arguments and says how the program ends.
-/

namespace MeetingMail

/-- What a run needs from its surroundings. -/
structure Host (m : Type → Type) where
  readFile : (path : Text) → m (Except Fault ByteArray)
  readInput : m (Except Fault ByteArray)
  writeFile : (path content : Text) → m (Except Fault Unit)
  writeOutput : (content : Text) → m (Except Fault Unit)
  /-- Adds an entry to the log. -/
  log : Event → m Unit
  /-- Tells the user that the arguments make no sense. -/
  rejectArguments : m Unit

/-- How the program ends. -/
inductive Exit where
  | success
  /-- A run failed. -/
  | failure
  /-- The arguments make no sense. -/
  | misuse
  deriving DecidableEq, Repr

/-- The exit code that the system gets. -/
def Exit.code : Exit → UInt32
  | .success => 0
  | .failure => 1
  | .misuse => 2

/-- The text of what was read, which has to be in UTF-8. -/
def textOfRead (read : Except Fault ByteArray) : Except Fault Text :=
  read.bind fun bytes =>
    match Text.decode? bytes with
    | some t => .ok t
    | none => .error .notUtf8

/-- The settings in a file, from what reading it gave. If the file is missing, they are those that
are built into the program. -/
def Settings.ofRead (path : Text) (read : Except Fault ByteArray) : Except Failure Settings :=
  match textOfRead read with
  | .error .notFound => .ok compiled
  | .error fault => .error (.readFile path fault)
  | .ok t =>
      match ofToml? t with
      | some settings => .ok settings
      | none => .error .invalidSettings

/-- What the program prints when it is asked for its version. -/
def versionText : Text := "summail 0.1.0\n".toList

/-- How the program is called. -/
def usageText : Text := "Usage: summail [OPTIONS] [INPUT]".toList

/-- What the program prints when it is asked for help. -/
def helpText : Text :=
  Text.unlines [
    "Render a meeting summary as an HTML email".toList,
    [],
    usageText,
    [],
    "Arguments:".toList,
    "  [INPUT]  Input summary file (reads stdin when omitted)".toList,
    [],
    "Options:".toList,
    "  -o, --output <OUTPUT>  Output file (writes stdout when omitted)".toList,
    "  -t, --title <TITLE>    Document title, also used as the message subject".toList,
    "  -c, --config <CONFIG>  TOML config file [default: summail.toml]".toList,
    "  -f, --format <FORMAT>  What to produce [default: html] ".toList
      ++ "[possible values: html, text, message]".toList,
    "      --to <ADDRESS>     Message recipient (repeatable, used with --format message)".toList,
    "  -v, --verbose          Log debug output to stderr".toList,
    "  -h, --help             Print help".toList,
    "  -V, --version          Print version".toList,
    []]

namespace Host

variable {m : Type → Type} [Monad m] (host : Host m)

/-- Adds an entry to the log if the log is to tell it. -/
def note (options : Options) (event : Event) : m Unit :=
  if options.verbose || event.isFailure then host.log event else pure ()

/-- The settings of a run. -/
def loadSettings (options : Options) : m (Except Failure Settings) := do
  let read ← host.readFile options.settings
  match read with
  | .error .notFound => host.note options (.settingsMissing options.settings)
  | _ => pure ()
  return Settings.ofRead options.settings read

/-- The summary of a run. -/
def readSummary (options : Options) : m (Except Failure Text) :=
  match options.input with
  | some path => do return (textOfRead (← host.readFile path)).mapError (.readFile path)
  | none => do return (textOfRead (← host.readInput)).mapError .readInput

/-- Writes the result of a run. On the standard output a line feed ends it. -/
def writeResult (options : Options) (content : Text) : m (Except Failure Unit) :=
  match options.output with
  | some path => do
      match ← host.writeFile path content with
      | .ok () =>
          host.note options (.wrote path)
          return .ok ()
      | .error fault => return .error (.writeFile path fault)
  | none => do return (← host.writeOutput (content ++ ['\n'])).mapError .writeOutput

/-- A run with given options. -/
def run (options : Options) : m (Except Failure Unit) := do
  match ← host.loadSettings options with
  | .error failure => return .error failure
  | .ok settings =>
      match ← host.readSummary options with
      | .error failure => return .error failure
      | .ok summary =>
          let tell := fun blocks bytes => host.note options (.rendered blocks bytes)
          host.writeResult options (← options.renderM tell settings summary)

/-- A run and how it ends. The log explains a failure. -/
def runToExit (options : Options) : m Exit := do
  match ← host.run options with
  | .ok () => return .success
  | .error failure =>
      host.note options (.failed failure)
      return .failure

/-- Prints a text. This is no failure if the text cannot be written. -/
def print (content : Text) : m Exit := do
  let _ ← host.writeOutput content
  return .success

/-- The program, from its arguments to its end. -/
def command (args : List Text) : m Exit :=
  match Options.ofArguments args with
  | .ok options => host.runToExit options
  | .error .version => host.print versionText
  | .error .help => host.print helpText
  | .error .misuse => do
      host.rejectArguments
      return .misuse

end Host

end MeetingMail
