import MeetingMail.Toml.Digit

/-!
The values of a TOML document.

* A table remembers how it came into being (`Origin`), because that decides what later lines may
  still add to it.
* Numbers are kept as they are written. `IntegerLiteral.value?` is what an integer is worth, and
  `FloatLiteral.overflows` says that no finite double is near a float.
* `Value.isReadable` holds of the values that a reader can pass over: it holds no number that
  cannot be represented.
-/

namespace MeetingMail.Toml

/-- How a table came into being. -/
inductive Origin where
  /-- On the way to the table of a longer header. -/
  | implied
  /-- On the way to the value of a dotted key. -/
  | dotted
  /-- By a header of its own. -/
  | header
  /-- Between braces. -/
  | inline
  deriving DecidableEq, Repr

/-- An integer as it is written: its sign, its base and its digits. Digits that are none in the
base make an integer without a value. -/
structure IntegerLiteral where
  negative : Bool
  base : Nat
  digits : Text
  deriving DecidableEq, Repr

/-- A float as it is written: a special value, or a decimal mantissa and a power of ten. -/
inductive FloatLiteral where
  | nan
  | infinite (negative : Bool)
  | finite (negative : Bool) (mantissa : Nat) (exponent : Int)
  deriving DecidableEq, Repr

/-- A value. An array that is `growing` is one that headers in double brackets add tables to. -/
inductive Value where
  | string (text : Text)
  | integer (n : IntegerLiteral)
  | float (x : FloatLiteral)
  | boolean (b : Bool)
  | moment (literal : Text)
  | array (growing : Bool) (items : List Value)
  | table (origin : Origin) (entries : List (Text × Value))
  deriving Repr

/-- The keys of a table with their values, in the order in which they were set. -/
abbrev Entries := List (Text × Value)

/-! ### Numbers out of range -/

namespace IntegerLiteral

def value? (i : IntegerLiteral) : Option Int :=
  (numberIn? i.base i.digits).map fun n => if i.negative then -(n : Int) else n

/-- Holds if an integer has a value that fits 128 bits, with a sign if it is negative. -/
def fits (i : IntegerLiteral) : Bool :=
  match i.value? with
  | none => false
  | some n => -(Nat.pow 2 127 : Int) ≤ n && n < Nat.pow 2 128

end IntegerLiteral

namespace FloatLiteral

/-- The least magnitude that rounds past the largest finite double: the midpoint between that
double, `(2 ^ 53 - 1) * 2 ^ 971`, and the next power of two. -/
def doubleLimit : Nat := (Nat.pow 2 54 - 1) * Nat.pow 2 970

/-- Holds if a written number is too large for a double. The number of decimal places settles all
cases but one without computing a large power. -/
def overflows : FloatLiteral → Bool
  | .finite _ mantissa exponent =>
      let places := exponent + (Nat.toDigits 10 mantissa).length
      if mantissa = 0 ∨ places < 309 then false
      else if 309 < places then true
      else if exponent < 0 then doubleLimit * Nat.pow 10 exponent.natAbs ≤ mantissa
      else doubleLimit ≤ mantissa * Nat.pow 10 exponent.natAbs
  | _ => false

end FloatLiteral

/-! ### Values that may be passed over -/

mutual

/-- Holds if no number anywhere in the value is out of range. -/
def Value.isReadable : Value → Bool
  | .integer i => i.fits
  | .float x => !x.overflows
  | .array _ items => allReadable items
  | .table _ entries => entriesReadable entries
  | _ => true

/-- Holds if every item of an array is readable. -/
def allReadable : List Value → Bool
  | [] => true
  | v :: vs => v.isReadable && allReadable vs

/-- Holds if every value of a table is readable. -/
def entriesReadable : List (Text × Value) → Bool
  | [] => true
  | (_, v) :: es => v.isReadable && entriesReadable es

end

end MeetingMail.Toml
