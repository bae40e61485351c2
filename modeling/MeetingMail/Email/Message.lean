import MeetingMail.Email.Page
import MeetingMail.Json.Printer

/-!
Messages: all that is needed to send a summary as an email. The plain part of a message is its
page without the tags, and the subject is also the title of the page.

* `Message.composeM` renders the summary, and `Message.composeM_eq` is what it tells meanwhile.
* `Message.payload` is the message as it is handed on.
-/

namespace MeetingMail

/-- What the sender of an email needs. Recipients are passed on as they are given. -/
structure Message where
  recipients : List Text
  subject : Text
  html : Text
  text : Text
  deriving DecidableEq, Repr

namespace Message

section Tell

variable {m : Type → Type} [Monad m] (tell : (blocks bytes : Nat) → m Unit)

/-- The message that carries a summary. What the rendering tells is passed on. -/
def composeM (settings : Settings) (recipients : List Text) (title : Option Text)
    (content : Text) : m Message := do
  let subject := settings.titleFor title
  let html ← renderSummaryM tell settings (some subject) content
  return { recipients, subject, html, text := plainText html }

/-- The message that carries a summary, where nobody listens. -/
def compose (settings : Settings) (recipients : List Text) (title : Option Text)
    (content : Text) : Message :=
  Id.run (composeM (fun _ _ => pure ()) settings recipients title content)

/-- Composing a message tells once of the summary. -/
theorem composeM_eq [LawfulMonad m] (settings : Settings) (recipients : List Text)
    (title : Option Text) (content : Text) :
    composeM tell settings recipients title content =
      (fun _ => compose settings recipients title content) <$>
        tell (Block.ofSummary content).length content.utf8Size := by
  dsimp only [composeM]
  rw [renderSummaryM_eq, bind_map_left, map_eq_pure_bind]
  rfl

end Tell

/-- The message as a JSON document. -/
def toJson (m : Message) : Json :=
  .object [
    ("to".toList, .array (m.recipients.map .string)),
    ("subject".toList, .string m.subject),
    ("html".toList, .string m.html),
    ("text".toList, .string m.text)]

/-- The message as it is handed to a sender. -/
def payload (m : Message) : Text := m.toJson.pretty

end Message

end MeetingMail
