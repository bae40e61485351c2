import MeetingMail.Text.Lines

/-!
Natural numbers in decimal notation.

* `Text.ofNat` writes a number without leading zeros, and `Text.toNat_ofNat` reads it back.
-/

namespace MeetingMail.Text

/-- A number in decimal, without leading zeros. -/
def ofNat (n : Nat) : Text := Nat.toDigits 10 n

/-- The number that a sequence of decimal digits stands for. -/
def toNat (digits : Text) : Nat := Nat.ofDigitChars 10 digits 0

@[simp] theorem toNat_ofNat (n : Nat) : toNat (ofNat n) = n :=
  Nat.ofDigitChars_toDigits (by decide) (by decide)

theorem isDigit_of_mem_ofNat {n : Nat} {c : Char} (h : c ∈ ofNat n) : c.isDigit = true :=
  Nat.isDigit_of_mem_toDigits (by decide) (by decide) h

theorem ofNat_ne_nil (n : Nat) : ofNat n ≠ [] := Nat.toDigits_ne_nil

theorem ofNat_zero : ofNat 0 = ['0'] := Nat.toDigits_of_lt_base (by decide)

/-- The first digit of a number is zero only if the number is. -/
theorem head?_ofNat_ne_zero {n : Nat} (h : n ≠ 0) : (ofNat n).head? ≠ some '0' := by
  induction n using Nat.strongRecOn with
  | ind n ih =>
      by_cases hn : n < 10
      · rw [ofNat, Nat.toDigits_of_lt_base hn, List.head?_cons, ne_eq, Option.some.injEq,
          Nat.digitChar_eq_zero]
        exact h
      · have hfront := ih (n / 10) (by omega) (by omega)
        have hsome : (ofNat (n / 10)).head?.isSome := List.isSome_head?.mpr (ofNat_ne_nil _)
        have hdigits : ofNat n = ofNat (n / 10) ++ [Nat.digitChar (n % 10)] :=
          Nat.toDigits_of_base_le (by decide) (by omega)
        rwa [hdigits, List.head?_append, Option.or_of_isSome hsome]

theorem ofNat_injective {m n : Nat} (h : ofNat m = ofNat n) : m = n := by
  rw [← toNat_ofNat m, h, toNat_ofNat]

end MeetingMail.Text
