import MeetingMail.Text.Hexadecimal

/-!
Digits and what they are worth, in bases up to sixteen.

* `digitIn?` is the value of one digit in a base.
* `numberIn?` is the value of a sequence of digits, which must not be empty.
-/

namespace MeetingMail.Toml

open Text (hexDigit?)

def digitIn? (base : Nat) (c : Char) : Option Nat := (hexDigit? c).filter (· < base)

theorem digitIn?_of_isDigit {c : Char} (h : c.isDigit = true) :
    digitIn? 10 c = some (c.toNat - '0'.toNat) := by
  have hbounds : 48 ≤ c.toNat ∧ c.toNat ≤ 57 := by
    simpa [Char.isDigit, Char.le_def, UInt32.le_iff_toNat_le] using h
  have hrange : '0' ≤ c ∧ c ≤ '9' := hbounds
  have hzero : '0'.toNat = 48 := rfl
  have hsmall : c.toNat - '0'.toNat < 10 := by omega
  rw [digitIn?, hexDigit?, if_pos hrange, Option.filter_some, if_pos (by simpa using hsmall)]

def isDigitIn (base : Nat) (c : Char) : Bool := (digitIn? base c).isSome

def numberIn? (base : Nat) (digits : Text) : Option Nat :=
  if digits = [] then none
  else (digits.mapM (digitIn? base)).map (·.foldl (base * · + ·) 0)

end MeetingMail.Toml
