import MeetingMail.Text.Decimal
import MeetingMail.Toml.Value

/-!
The numbers of TOML. Every reader here takes a whole word and accepts or refuses it as a whole.

* `integer?` reads decimal integers with an optional sign, and unsigned integers in three other
  bases. It looks at the shape of a word only, so that an integer may turn out to have no value.
* `float?` reads decimal fractions, powers of ten, infinities and the value that is no number.
* `underscoresFit` is the rule on underscores that all of them share.
-/

namespace MeetingMail.Toml

/-! ### Signs and underscores -/

/-- Whether a number has a minus sign, and what follows the sign that it may have. -/
def takeSign : Text → Bool × Text
  | '-' :: rest => (true, rest)
  | '+' :: rest => (false, rest)
  | t => (false, t)

/-- Holds if every underscore has a digit in front of it and a digit behind it. The character that
comes before the text is a digit if `before` holds. -/
def underscoresFitAfter (isDigit : Char → Bool) (before : Bool) : Text → Bool
  | [] => true
  | c :: rest =>
      if c = '_' then
        before && rest.head?.any isDigit && underscoresFitAfter isDigit false rest
      else underscoresFitAfter isDigit (isDigit c) rest

/-- Holds if every underscore of a text stands between two digits. -/
def underscoresFit (isDigit : Char → Bool) (t : Text) : Bool :=
  underscoresFitAfter isDigit false t

def dropUnderscores (t : Text) : Text := t.filter (· != '_')

/-! ### Integers -/

/-- An integer in another base than ten, read from behind the mark of its base. -/
def based? (base : Nat) (digits : Text) : Option IntegerLiteral :=
  if digits.all (fun c => c == '_' || isDigitIn base c)
      ∧ underscoresFit (isDigitIn base) digits then
    some ⟨false, base, dropUnderscores digits⟩
  else none

def isExponentMark (c : Char) : Bool := c == 'e' || c == 'E'

/-- Holds if a word without its sign has the shape of a decimal integer: it is all digits, or an
underscore follows its leading digits and no mark of a float does. A zero in front stands alone. -/
def looksDecimal (t : Text) : Bool :=
  t == ['0'] ||
    t.head? != some '0' &&
      match t.dropWhile Char.isDigit with
      | [] => t != []
      | c :: rest => c == '_' && !rest.any fun c => c == '.' || isExponentMark c

/-- A decimal integer with an optional sign. Its underscores only have to stand between digits of
some base. -/
def decimal? (word : Text) : Option IntegerLiteral :=
  let (negative, t) := takeSign word
  if looksDecimal t ∧ underscoresFit (isDigitIn 16) t then
    some ⟨negative, 10, dropUnderscores t⟩
  else none

/-- An integer in any of the four bases. -/
def integer? : Text → Option IntegerLiteral
  | '0' :: 'x' :: rest => based? 16 rest
  | '0' :: 'o' :: rest => based? 8 rest
  | '0' :: 'b' :: rest => based? 2 rest
  | t => decimal? t

/-! ### Floats -/

/-- The digits at the start of a text, at least one, without the underscores among them, and what
follows them. -/
def takeDigits? (t : Text) : Option (Text × Text) :=
  let isPart (c : Char) := c.isDigit || c == '_'
  match dropUnderscores (t.takeWhile isPart) with
  | [] => none
  | digits => some (digits, t.dropWhile isPart)

/-- The digits behind a decimal point, if there is one, and what follows them. -/
def takeFraction? : Text → Option (Text × Text)
  | '.' :: rest => takeDigits? rest
  | t => some ([], t)

/-- A whole text as an exponent with an optional sign. Leading zeros are allowed. -/
def exponent? (t : Text) : Option Int :=
  let (negative, t) := takeSign t
  match takeDigits? t with
  | some (digits, []) =>
      some (if negative then -(Text.toNat digits : Int) else Text.toNat digits)
  | _ => none

/-- A float without its sign: a decimal number with a fraction, an exponent or both. A zero in
front stands alone. -/
def unsignedFloat? (negative : Bool) (t : Text) : Option FloatLiteral := do
  let (whole, rest) ← takeDigits? t
  if t.head? = some '0' ∧ 1 < whole.length then none
  let (fraction, rest) ← takeFraction? rest
  let exponent ← match rest with
    | [] => if fraction = [] then none else some 0
    | c :: rest => if isExponentMark c then exponent? rest else none
  some (.finite negative (Text.toNat (whole ++ fraction)) (exponent - fraction.length))

def float? (word : Text) : Option FloatLiteral :=
  let (negative, t) := takeSign word
  if t = "inf".toList then some (.infinite negative)
  else if t = "nan".toList then some .nan
  else if underscoresFit Char.isDigit t then unsignedFloat? negative t
  else none

end MeetingMail.Toml
