import MeetingMail.Command.Options
import MeetingMail.Text.Utf8

/-!
What can go wrong in a run, what the log tells about it, and the wording of both.

* A `Fault` is what a file or a stream answers when it cannot be read or written.
* A `Failure` says which step of a run met it; `Failure.message` is its wording.
* An `Event` is an entry of the log; `Event.line` is its wording.
-/

namespace MeetingMail

/-- Why something cannot be read or written. -/
inductive Fault where
  | notFound
  | notADirectory
  | isADirectory
  | noSpace
  | nameTooLong
  | nullInName
  | notUtf8
  | other (message : Text)
  deriving DecidableEq, Repr

/-- The wording of a fault. -/
def Fault.message : Fault → Text
  | .notFound => "No such file or directory (os error 2)".toList
  | .notADirectory => "Not a directory (os error 20)".toList
  | .isADirectory => "Is a directory (os error 21)".toList
  | .noSpace => "No space left on device (os error 28)".toList
  | .nameTooLong => "File name too long (os error 36)".toList
  | .nullInName => "file name contained an unexpected NUL byte".toList
  | .notUtf8 => "stream did not contain valid UTF-8".toList
  | .other message => message

/-- Why a run fails. -/
inductive Failure where
  | readFile (path : Text) (fault : Fault)
  | readInput (fault : Fault)
  | writeFile (path : Text) (fault : Fault)
  | writeOutput (fault : Fault)
  | invalidSettings
  deriving DecidableEq, Repr

/-- The wording of a failure. -/
def Failure.message : Failure → Text
  | .readFile path fault => "failed to read ".toList ++ path ++ ": ".toList ++ fault.message
  | .readInput fault => "failed to read stdin: ".toList ++ fault.message
  | .writeFile path fault => "failed to write ".toList ++ path ++ ": ".toList ++ fault.message
  | .writeOutput fault => "failed to write stdout: ".toList ++ fault.message
  | .invalidSettings => "invalid config".toList

/-- An entry of the log. -/
inductive Event where
  | settingsMissing (path : Text)
  | rendered (blocks bytes : Nat)
  | wrote (path : Text)
  | failed (failure : Failure)
  deriving DecidableEq, Repr

/-- Holds of the events that the log tells without being asked to. -/
def Event.isFailure : Event → Bool
  | .failed _ => true
  | _ => false

/-- The wording of an event. -/
def Event.line : Event → Text
  | .settingsMissing path =>
      "DEBUG summail::config: config file not found, using defaults path=".toList ++ path
  | .rendered blocks bytes =>
      "DEBUG summail: rendered summary blocks blocks=".toList ++ Text.ofNat blocks
        ++ " bytes=".toList ++ Text.ofNat bytes
  | .wrote path => "INFO summail: wrote output path=".toList ++ path
  | .failed failure => "ERROR summail: summail failed error=".toList ++ failure.message

end MeetingMail
