import Mathlib.Data.List.Forall2
import MeetingMail.Toml.Quoted

/-!
Basic strings of TOML, and the many ways to write one.

* `SpelledText` relates a text to what may stand for it between quotes: most characters may stand
  for themselves, and every character may be written by an escape.
* `quoted?_spelled_append`: however a text is spelled, it is what the quoted string is read as.
-/

namespace MeetingMail.Toml

open Text (hexDigit? hexNumber? scalar?_toNat prepend)

/-! ### Spellings -/

/-- A hexadecimal digit in either case, with its value. -/
def IsHexDigit (c : Char) (value : Nat) : Prop :=
  "0123456789abcdef".toList[value]? = some c ∨ "0123456789ABCDEF".toList[value]? = some c

/-- Holds of the characters that a basic string cannot hold as they are: quotes, backslashes and
control characters. -/
def NeedsEscape (c : Char) : Prop :=
  c = '"' ∨ c = '\\' ∨ c.toNat < 0x20 ∨ c.toNat = 0x7F

/-- The escapes of one letter, with the characters that they stand for. -/
def letterEscapes : List (Char × Char) :=
  [('b', '\x08'), ('t', '\t'), ('n', '\n'), ('f', '\x0c'), ('r', '\r'), ('e', '\x1b'),
    ('"', '"'), ('\\', '\\')]

/-- The marks of the escapes by code point, with the number of digits behind each. -/
def codeEscapes : List (Char × Nat) := [('x', 2), ('u', 4), ('U', 8)]

/-- A character as a basic string may spell it. -/
inductive SpelledChar (c : Char) : Text → Prop where
  | plain (h : ¬ NeedsEscape c) : SpelledChar c [c]
  | letter {l : Char} (h : (l, c) ∈ letterEscapes) : SpelledChar c ['\\', l]
  | code {mark : Char} {digits : Text} {values : List Nat}
      (hmark : (mark, digits.length) ∈ codeEscapes)
      (hdigits : List.Forall₂ IsHexDigit digits values)
      (hcode : values.foldl (16 * · + ·) 0 = c.toNat) : SpelledChar c ('\\' :: mark :: digits)

/-- A text as a basic string may spell it, character by character. -/
inductive SpelledText : Text → Text → Prop where
  | nil : SpelledText [] []
  | cons {c : Char} {t piece w : Text} (hc : SpelledChar c piece) (ht : SpelledText t w) :
      SpelledText (c :: t) (piece ++ w)

instance (c : Char) : Decidable (NeedsEscape c) :=
  inferInstanceAs (Decidable (c = '"' ∨ c = '\\' ∨ c.toNat < 0x20 ∨ c.toNat = 0x7F))

theorem isHexDigit_digitChar : ∀ d < 16, IsHexDigit (Nat.digitChar d) d := by
  unfold IsHexDigit
  decide

theorem exists_spelledChar (c : Char) : ∃ piece, SpelledChar c piece := by
  by_cases h : NeedsEscape c
  · rcases h with rfl | rfl | hcontrol
    · exact ⟨_, .letter (l := '"') (by decide)⟩
    · exact ⟨_, .letter (l := '\\') (by decide)⟩
    · have hdigits : List.Forall₂ IsHexDigit
          [Nat.digitChar (c.toNat / 16), Nat.digitChar (c.toNat % 16)]
          [c.toNat / 16, c.toNat % 16] :=
        .cons (isHexDigit_digitChar _ (by omega)) (.cons (isHexDigit_digitChar _ (by omega)) .nil)
      have hcode : [c.toNat / 16, c.toNat % 16].foldl (16 * · + ·) 0 = c.toNat := by
        simp only [List.foldl_cons, List.foldl_nil]
        omega
      refine ⟨'\\' :: 'x' :: _, .code ?_ hdigits hcode⟩
      exact List.mem_cons_self
  · exact ⟨_, .plain h⟩

/-- Every text can be written as a basic string. -/
theorem exists_spelledText (t : Text) : ∃ w, SpelledText t w := by
  induction t with
  | nil => exact ⟨[], .nil⟩
  | cons c t ih =>
      obtain ⟨piece, hpiece⟩ := exists_spelledChar c
      obtain ⟨w, hw⟩ := ih
      exact ⟨piece ++ w, .cons hpiece hw⟩

/-! ### They are read back -/

theorem hexDigit?_eq_some {c : Char} {value : Nat} (h : IsHexDigit c value) :
    hexDigit? c = some value := by
  have hlower : ∀ p ∈ "0123456789abcdef".toList.zipIdx, hexDigit? p.1 = some p.2 := by decide
  have hupper : ∀ p ∈ "0123456789ABCDEF".toList.zipIdx, hexDigit? p.1 = some p.2 := by decide
  rcases h with h | h
  · exact hlower (c, value) (List.mem_zipIdx_iff_getElem?.mpr h)
  · exact hupper (c, value) (List.mem_zipIdx_iff_getElem?.mpr h)

theorem hexNumber?_append {digits : Text} {values : List Nat}
    (h : List.Forall₂ IsHexDigit digits values) (high : Nat) (rest : Text) :
    hexNumber? digits.length high (digits ++ rest)
      = some (values.foldl (16 * · + ·) high, rest) := by
  induction h generalizing high with
  | nil => rfl
  | cons hc _ ih =>
      rw [List.length_cons, List.cons_append, hexNumber?, hexDigit?_eq_some hc, Option.bind_some,
        ih]
      rfl

/-- An escape by code point is read as the character with this code point. -/
theorem escape?_code {c mark : Char} {digits : Text} {values : List Nat}
    (hmark : (mark, digits.length) ∈ codeEscapes)
    (hdigits : List.Forall₂ IsHexDigit digits values)
    (hcode : values.foldl (16 * · + ·) 0 = c.toNat) (rest : Text) :
    escape? (mark :: digits ++ rest) = some (c, rest) := by
  have hmarks : ∀ p ∈ codeEscapes, shortEscape? p.1 = none ∧ escapeWidth? p.1 = some p.2 := by
    decide
  obtain ⟨hshort, hwidth⟩ := hmarks _ hmark
  simp only [List.cons_append, escape?, hshort, hwidth, Option.bind_eq_bind, Option.bind_some,
    hexNumber?_append hdigits, hcode, scalar?_toNat]

theorem basic?_escape {t rest : Text} {c : Char} (h : escape? t = some (c, rest)) :
    basic? ('\\' :: t) = prepend c (basic? rest) := by
  rw [basic?, if_neg (by decide), if_pos rfl]
  split
  · rename_i c' rest' hsome
    rw [h] at hsome
    cases hsome
    rfl
  · rename_i hnone
    rw [h] at hnone
    cases hnone

theorem isPlain_of_not_needsEscape {c : Char} (h : ¬ NeedsEscape c) : isPlain c = true := by
  simp only [NeedsEscape, not_or, Nat.not_lt] at h
  simp [isPlain, h.2.2]

/-- A character is read back however it is spelled, and whatever comes after it. -/
theorem basic?_spelledChar_append {c : Char} {piece : Text} (h : SpelledChar c piece)
    (rest : Text) : basic? (piece ++ rest) = prepend c (basic? rest) := by
  cases h with
  | plain h =>
      have hquote : c ≠ '"' := fun heq => h (.inl heq)
      have hbackslash : c ≠ '\\' := fun heq => h (.inr (.inl heq))
      rw [List.singleton_append, basic?, if_neg hquote, if_neg hbackslash,
        if_pos (isPlain_of_not_needsEscape h)]
  | @letter l h =>
      have hletters : ∀ p ∈ letterEscapes, shortEscape? p.1 = some p.2 := by decide
      have hescape : escape? (l :: rest) = some (c, rest) := by rw [escape?, hletters _ h]
      exact basic?_escape hescape
  | code hmark hdigits hcode => exact basic?_escape (escape?_code hmark hdigits hcode rest)

theorem basic?_spelled_append {t w : Text} (h : SpelledText t w) (rest : Text) :
    basic? (w ++ '"' :: rest) = some (t, rest) := by
  induction h with
  | nil => rw [List.nil_append, basic?, if_pos rfl]
  | cons hc _ ih =>
      rw [List.append_assoc, basic?_spelledChar_append hc, ih]
      rfl

theorem SpelledChar.head?_ne_quote {c : Char} {piece : Text} (h : SpelledChar c piece)
    (rest : Text) : (piece ++ rest).head? ≠ some '"' := by
  cases h with
  | plain h => exact fun heq => h (.inl (Option.some.inj heq))
  | letter => simp
  | code => simp

theorem quoted?_quote_cons {t : Text} (h : ∀ rest, t ≠ '"' :: '"' :: rest) :
    quoted? ('"' :: t) = basic? t := by
  unfold quoted?
  split
  · rename_i rest heq
    exact absurd (List.cons.inj heq).2 (h rest)
  · rename_i heq
    cases heq
  · rename_i heq
    rw [(List.cons.inj heq).2]
  · rename_i heq
    cases heq
  · rename_i hbasic _
    exact absurd rfl (hbasic t)

/-- A spelled text between quotes is read back. Behind it no quote may stand, since an empty string
and a third quote open a string of several lines. -/
theorem quoted?_spelled_append {t w : Text} (h : SpelledText t w) {rest : Text}
    (hrest : rest.head? ≠ some '"') : quoted? ('"' :: (w ++ '"' :: rest)) = some (t, rest) := by
  have hlong : ∀ more, w ++ '"' :: rest ≠ '"' :: '"' :: more := by
    intro more heq
    cases h with
    | nil => exact hrest (congrArg List.head? (List.cons.inj heq).2)
    | cons hc _ =>
        rw [List.append_assoc] at heq
        exact hc.head?_ne_quote _ (congrArg List.head? heq)
  rw [quoted?_quote_cons hlong]
  exact basic?_spelled_append h rest

end MeetingMail.Toml
