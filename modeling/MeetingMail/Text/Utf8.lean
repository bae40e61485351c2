import MeetingMail.Text.Lines

/-!
Texts as bytes, in UTF-8.

* `Text.decode?` reads exactly the byte sequences that `Text.encode` writes (`decode?_eq_some_iff`).
-/

namespace MeetingMail.Text

/-- A text in UTF-8. -/
def encode (t : Text) : ByteArray := (String.ofList t).toUTF8

/-- The text that bytes in UTF-8 stand for. -/
def decode? (bytes : ByteArray) : Option Text := (String.fromUTF8? bytes).map String.toList

/-- The number of bytes of a text in UTF-8. -/
def utf8Size (t : Text) : Nat := (String.ofList t).utf8ByteSize

theorem size_encode (t : Text) : (encode t).size = t.utf8Size := rfl

theorem decode?_eq_some_iff {bytes : ByteArray} {t : Text} :
    decode? bytes = some t ↔ bytes = encode t := by
  simp only [decode?, String.fromUTF8?, Option.map_eq_some_iff, encode]
  constructor
  · rintro ⟨s, hs, rfl⟩
    split at hs
    · simp only [Option.some.injEq] at hs
      subst hs
      simp [String.fromUTF8]
    · simp at hs
  · rintro rfl
    refine ⟨String.ofList t, ?_, by simp⟩
    rw [dif_pos (show (String.ofList t).toUTF8.IsValidUTF8 from String.isValidUTF8 _)]
    rfl

@[simp] theorem decode?_encode (t : Text) : decode? (encode t) = some t :=
  decode?_eq_some_iff.mpr rfl

end MeetingMail.Text
