import MeetingMail.Email.Message

/-!
What a run of the program is asked for, and the rendering that it produces.

* `Options.renderM` is the rendering in the format that is asked for, and `Options.renderM_eq` is
  what it tells meanwhile.
-/

namespace MeetingMail

/-- What to produce from a summary. -/
inductive Format where
  /-- The page of the email. -/
  | html
  /-- The page without its tags. -/
  | text
  /-- The message with recipients, subject and both forms of the page. -/
  | message
  deriving DecidableEq, Repr

/-- The word for a format on the command line. -/
def Format.name : Format → Text
  | .html => "html".toList
  | .text => "text".toList
  | .message => "message".toList

/-- The format with a name. -/
def Format.ofName? (name : Text) : Option Format :=
  [Format.html, .text, .message].find? (·.name == name)

@[simp] theorem Format.ofName?_name (f : Format) : ofName? f.name = some f := by
  cases f <;> decide

/-- The settings file that is read if no other is named. -/
def standardSettingsPath : Text := "summail.toml".toList

/-- All that the command line says about a run. -/
structure Options where
  /-- The file with the summary; the standard input if there is none. -/
  input : Option Text := none
  /-- The file to write; the standard output if there is none. -/
  output : Option Text := none
  title : Option Text := none
  settings : Text := standardSettingsPath
  format : Format := .html
  recipients : List Text := []
  /-- Whether the log tells what the run does. -/
  verbose : Bool := false
  deriving DecidableEq, Repr

namespace Options

variable {m : Type → Type} [Monad m] (tell : (blocks bytes : Nat) → m Unit)

/-- What a run produces from a summary. What the rendering tells is passed on. -/
def renderM (options : Options) (settings : Settings) (summary : Text) : m Text :=
  match options.format with
  | .html => renderSummaryM tell settings options.title summary
  | .text => do return plainText (← renderSummaryM tell settings options.title summary)
  | .message => do
      let message ← Message.composeM tell settings options.recipients options.title summary
      return message.payload

/-- What a run produces from a summary, where nobody listens. -/
def render (options : Options) (settings : Settings) (summary : Text) : Text :=
  Id.run (options.renderM (fun _ _ => pure ()) settings summary)

/-- A run tells once of the summary, in each of the formats. -/
theorem renderM_eq [LawfulMonad m] (options : Options) (settings : Settings) (summary : Text) :
    options.renderM tell settings summary =
      (fun _ => options.render settings summary) <$>
        tell (Block.ofSummary summary).length summary.utf8Size := by
  unfold render renderM
  cases options.format with
  | html => exact renderSummaryM_eq tell settings options.title summary
  | text =>
      dsimp only
      rw [renderSummaryM_eq, bind_map_left, map_eq_pure_bind]
      rfl
  | message =>
      dsimp only
      rw [Message.composeM_eq, bind_map_left, map_eq_pure_bind]
      rfl

end Options

end MeetingMail
