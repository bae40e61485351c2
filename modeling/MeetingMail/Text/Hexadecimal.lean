import MeetingMail.Text.Lines

/-!
Hexadecimal digits, the characters that have their code points written in them, and what the
readers of quoted strings share.

* `hexDigit?` is the value of one digit, and `hexNumber?` of a fixed number of them.
* `scalar?` is the character with a code point.
* `prepend` puts a character in front of what a reader has found.
-/

namespace MeetingMail.Text

/-- The value of a hexadecimal digit in either case. -/
def hexDigit? (c : Char) : Option Nat :=
  if '0' ≤ c ∧ c ≤ '9' then some (c.toNat - '0'.toNat)
  else if 'a' ≤ c ∧ c ≤ 'f' then some (c.toNat - 'a'.toNat + 10)
  else if 'A' ≤ c ∧ c ≤ 'F' then some (c.toNat - 'A'.toNat + 10)
  else none

theorem hexDigit?_digitChar : ∀ d < 16, hexDigit? (Nat.digitChar d) = some d := by decide

/-- The number written by exactly `width` hexadecimal digits, with `high` in front of them. -/
def hexNumber? : (width high : Nat) → Text → Option (Nat × Text)
  | 0, high, t => some (high, t)
  | _ + 1, _, [] => none
  | width + 1, high, c :: rest =>
      (hexDigit? c).bind fun d => hexNumber? width (16 * high + d) rest

theorem length_hexNumber?_le {width high code : Nat} {t rest : Text}
    (h : hexNumber? width high t = some (code, rest)) : rest.length ≤ t.length := by
  induction width generalizing high t with
  | zero => simp_all [hexNumber?]
  | succ width ih =>
      cases t with
      | nil => simp [hexNumber?] at h
      | cons c t =>
          simp only [hexNumber?, Option.bind_eq_some_iff] at h
          obtain ⟨d, -, h⟩ := h
          exact Nat.le_succ_of_le (ih h)

/-- The character with a code point, if it is one of a character. -/
def scalar? (n : Nat) : Option Char :=
  if h : n.isValidChar then some (Char.ofNatAux n h) else none

theorem scalar?_toNat (c : Char) : scalar? c.toNat = some c := by
  have hvalid : c.toNat.isValidChar := c.valid
  rw [scalar?, dif_pos hvalid]
  rfl

/-- A character in front of the string that a reader has found. -/
def prepend (c : Char) (found : Option (Text × Text)) : Option (Text × Text) :=
  found.map fun (text, rest) => (c :: text, rest)

theorem length_prepend_lt {c : Char} {found : Option (Text × Text)} {text rest : Text} {n : Nat}
    (hf : ∀ text rest, found = some (text, rest) → rest.length < n)
    (h : prepend c found = some (text, rest)) : rest.length < n := by
  simp only [prepend, Option.map_eq_some_iff, Prod.mk.injEq, Prod.exists] at h
  obtain ⟨text', rest', hs, -, rfl⟩ := h
  exact hf _ _ hs

end MeetingMail.Text
