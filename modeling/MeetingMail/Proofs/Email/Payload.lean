import MeetingMail.Email.Message
import MeetingMail.Proofs.Json.Controls
import MeetingMail.Proofs.Json.Reader

/-!
The JSON document of a message.

* `payload_lossless`: the document is read back as an object with the parts of the message and
  nothing else, so that no two messages share one. The layout is all that its control characters
  belong to.
-/

namespace MeetingMail.Message

/-- The payload of a message is read as an object of its four parts, in this order. Different
messages have different payloads. Every control character of a payload is a line feed that stands
outside of all strings. -/
theorem payload_lossless :
    (∀ m : Message,
      Json.read? m.payload = some (.object [
        ("to".toList, .array (m.recipients.map .string)),
        ("subject".toList, .string m.subject),
        ("html".toList, .string m.html),
        ("text".toList, .string m.text)])) ∧
    (∀ m m' : Message, m.payload = m'.payload ↔ m = m') ∧
    ∀ (m : Message) (before : Text) (c : Char) (after : Text),
      m.payload = before ++ c :: after → c.toNat < 0x20 →
        c = '\n' ∧ Json.Position.behind before = .outside := by
  have hread (m : Message) : Json.read? m.payload = some m.toJson := Json.read?_pretty m.toJson
  refine ⟨hread, fun m m' => ⟨fun heq => ?_, congrArg payload⟩, ?_⟩
  · have hjson : m.toJson = m'.toJson := by
      rw [← Option.some_inj, ← hread m, heq, hread m']
    obtain ⟨recipients, subject, html, text⟩ := m
    obtain ⟨recipients', subject', html', text'⟩ := m'
    simp only [toJson, Json.object.injEq, List.cons.injEq, Prod.mk.injEq, Json.array.injEq,
      Json.string.injEq, true_and, and_true] at hjson
    obtain ⟨hrecipients, rfl, rfl, rfl⟩ := hjson
    have hstring : Function.Injective Json.string := fun _ _ h => Json.string.inj h
    rw [hstring.list_map hrecipients]
  · intro m before c after hpayload hcontrol
    have htidy := Json.tidy_pretty m.toJson
    rw [show Json.pretty m.toJson = _ from hpayload] at htidy
    exact htidy.control hcontrol

/-- The line feed behind a recipient that holds a quote and a comma. -/
theorem payload_lossless_recipient :
    let m : Message := ⟨[['"', ',']], ['\n'], ['\\', 'n'], ['\x01', '\x7f']⟩
    m.payload = m.payload.take 21 ++ '\n' :: m.payload.drop 22 ∧ '\n'.toNat < 0x20 ∧
      '\n' = '\n' ∧ Json.Position.behind (m.payload.take 21) = .outside := by
  intro m
  have hpayload : m.payload = m.payload.take 21 ++ '\n' :: m.payload.drop 22 := rfl
  have hcontrol : '\n'.toNat < 0x20 := by decide
  exact ⟨hpayload, hcontrol, payload_lossless.2.2 m _ _ _ hpayload hcontrol⟩

end MeetingMail.Message
