import MeetingMail.Text.Lines

/-!
Entities, which stand for the characters that mean something in markup.

* `escapeText` and `escapeAttribute` put entities for these characters, one character at a time.
* `decodeText` and `decodeAttribute` read entities back, in one pass.
* `Escaped` is the type of the texts that escaping produces; `Escaped.raw` is the text that was
  escaped.
-/

namespace MeetingMail

/-! ### Escaping -/

/-- What stands for a character in text content. -/
def textEntity : Char → Text
  | '&' => "&amp;".toList
  | '<' => "&lt;".toList
  | '>' => "&gt;".toList
  | c => [c]

/-- What stands for a character in an attribute value between double quotes. -/
def attributeEntity : Char → Text
  | '"' => "&quot;".toList
  | c => textEntity c

/-- Text content that shows a text as it is. -/
def escapeText (t : Text) : Text := t.flatMap textEntity

/-- The inside of a quoted attribute that has a text as its value. -/
def escapeAttribute (t : Text) : Text := t.flatMap attributeEntity

/-! ### What escaping leaves out -/

theorem bracket_notMem_textEntity {b : Char} (hb : b = '<' ∨ b = '>') (c : Char) :
    b ∉ textEntity c := by
  unfold textEntity
  split
  · rcases hb with rfl | rfl <;> decide
  · rcases hb with rfl | rfl <;> decide
  · rcases hb with rfl | rfl <;> decide
  · rename_i hlt hgt
    rw [List.mem_singleton]
    rintro rfl
    exact hb.elim hlt hgt

/-- Text content holds no angle brackets. -/
theorem bracket_notMem_escapeText {b : Char} (hb : b = '<' ∨ b = '>') (t : Text) :
    b ∉ escapeText t := by
  rw [escapeText, List.mem_flatMap]
  rintro ⟨c, -, hc⟩
  exact bracket_notMem_textEntity hb c hc

theorem delimiter_notMem_attributeEntity {b : Char} (hb : b = '<' ∨ b = '>' ∨ b = '"') (c : Char) :
    b ∉ attributeEntity c := by
  unfold attributeEntity
  split
  · rcases hb with rfl | rfl | rfl <;> decide
  · rename_i hquote
    obtain hbracket | rfl := or_assoc.mpr hb
    · exact bracket_notMem_textEntity hbracket c
    · -- A quote could only come from itself: no entity of text content spells one.
      unfold textEntity
      split
      · decide
      · decide
      · decide
      · rw [List.mem_singleton]
        exact fun heq => hquote heq.symm

/-- The inside of a quoted attribute holds no angle brackets and no quotes. -/
theorem delimiter_notMem_escapeAttribute {b : Char} (hb : b = '<' ∨ b = '>' ∨ b = '"') (t : Text) :
    b ∉ escapeAttribute t := by
  rw [escapeAttribute, List.mem_flatMap]
  rintro ⟨c, -, hc⟩
  exact delimiter_notMem_attributeEntity hb c hc

/-! ### Decoding -/

/-- The text that text content shows. What is no entity stands for itself. -/
def decodeText : Text → Text
  | '&' :: 'a' :: 'm' :: 'p' :: ';' :: t => '&' :: decodeText t
  | '&' :: 'l' :: 't' :: ';' :: t => '<' :: decodeText t
  | '&' :: 'g' :: 't' :: ';' :: t => '>' :: decodeText t
  | c :: t => c :: decodeText t
  | [] => []

/-- The value that the inside of a quoted attribute stands for. -/
def decodeAttribute : Text → Text
  | '&' :: 'a' :: 'm' :: 'p' :: ';' :: t => '&' :: decodeAttribute t
  | '&' :: 'l' :: 't' :: ';' :: t => '<' :: decodeAttribute t
  | '&' :: 'g' :: 't' :: ';' :: t => '>' :: decodeAttribute t
  | '&' :: 'q' :: 'u' :: 'o' :: 't' :: ';' :: t => '"' :: decodeAttribute t
  | c :: t => c :: decodeAttribute t
  | [] => []

/-- Decoding undoes the escaping of one character, whatever comes after it. -/
theorem decodeText_textEntity_append (c : Char) (t : Text) :
    decodeText (textEntity c ++ t) = c :: decodeText t := by
  unfold textEntity
  split
  · rfl
  · rfl
  · rfl
  · rename_i amp _ _
    rw [List.singleton_append, decodeText.eq_4] <;> simp_all

/-- Decoding undoes escaping, whatever comes after the escaped text. -/
@[simp] theorem decodeText_escapeText_append (t u : Text) :
    decodeText (escapeText t ++ u) = t ++ decodeText u := by
  induction t with
  | nil => rfl
  | cons c t ih =>
      rw [escapeText, List.flatMap_cons, List.append_assoc, decodeText_textEntity_append]
      exact congrArg (c :: ·) ih

@[simp] theorem decodeText_escapeText (t : Text) : decodeText (escapeText t) = t := by
  simpa [decodeText] using decodeText_escapeText_append t []

theorem decodeAttribute_attributeEntity_append (c : Char) (t : Text) :
    decodeAttribute (attributeEntity c ++ t) = c :: decodeAttribute t := by
  unfold attributeEntity
  split
  · rfl
  · unfold textEntity
    split
    · rfl
    · rfl
    · rfl
    · rw [List.singleton_append, decodeAttribute.eq_5] <;> simp_all

@[simp] theorem decodeAttribute_escapeAttribute (t : Text) :
    decodeAttribute (escapeAttribute t) = t := by
  induction t with
  | nil => rfl
  | cons c t ih =>
      rw [escapeAttribute, List.flatMap_cons, decodeAttribute_attributeEntity_append]
      exact congrArg (c :: ·) ih

theorem escapeText_injective {s t : Text} (h : escapeText s = escapeText t) : s = t := by
  rw [← decodeText_escapeText s, h, decodeText_escapeText]

/-! ### Escaped texts -/

/-- Text content that was made by escaping some text. -/
structure Escaped where
  text : Text
  is_escaped : ∃ raw, text = escapeText raw
  deriving DecidableEq

namespace Escaped

def of (raw : Text) : Escaped := ⟨escapeText raw, raw, rfl⟩

def raw (e : Escaped) : Text := decodeText e.text

@[simp] theorem text_of (t : Text) : (of t).text = escapeText t := rfl

@[simp] theorem raw_of (t : Text) : (of t).raw = t := by simp [raw]

@[simp] theorem of_raw (e : Escaped) : of e.raw = e := by
  obtain ⟨_, raw, rfl⟩ := e
  simp [of, Escaped.raw]

theorem text_eq_escapeText_raw (e : Escaped) : e.text = escapeText e.raw := by
  rw [← text_of, of_raw]

theorem bracket_notMem_text {b : Char} (hb : b = '<' ∨ b = '>') (e : Escaped) : b ∉ e.text := by
  rw [text_eq_escapeText_raw]
  exact bracket_notMem_escapeText hb e.raw

end Escaped

end MeetingMail
