import MeetingMail.Text.Decimal

/-!
Dates and times. `isMoment` accepts the four forms of TOML: a date, a time, both, and both with an
offset from universal time. Dates must exist in the Gregorian calendar, and the sixtieth second of
a minute is allowed for leap seconds.
-/

namespace MeetingMail.Toml

/-- A number of exactly `width` decimal digits, and what follows it. -/
def fixedDigits? (width : Nat) (t : Text) : Option (Nat × Text) :=
  let digits := t.take width
  if digits.length = width ∧ digits.all Char.isDigit then
    some (Text.toNat digits, t.drop width)
  else none

/-- The text after a given first character. -/
def mark? (c : Char) : Text → Option Text
  | [] => none
  | d :: rest => if c = d then some rest else none

/-- Holds of the years with a 29th of February. -/
def isLeapYear (year : Nat) : Bool :=
  year % 4 == 0 && (year % 100 != 0 || year % 400 == 0)

/-- The number of days of a month, counted from 1; no days if there is no such month. -/
def daysInMonth (year month : Nat) : Nat :=
  match month with
  | 1 | 3 | 5 | 7 | 8 | 10 | 12 => 31
  | 4 | 6 | 9 | 11 => 30
  | 2 => if isLeapYear year then 29 else 28
  | _ => 0

def afterDate? (t : Text) : Option Text := do
  let (year, t) ← fixedDigits? 4 t
  let t ← mark? '-' t
  let (month, t) ← fixedDigits? 2 t
  let t ← mark? '-' t
  let (day, t) ← fixedDigits? 2 t
  if 1 ≤ day ∧ day ≤ daysInMonth year month then some t else none

def afterMinutes? (t : Text) : Option Text := do
  let (hour, t) ← fixedDigits? 2 t
  let t ← mark? ':' t
  let (minute, t) ← fixedDigits? 2 t
  if hour ≤ 23 ∧ minute ≤ 59 then some t else none

/-- What follows the optional seconds of a time, with their optional fraction. -/
def afterSeconds? : Text → Option Text
  | ':' :: t => do
      let (second, t) ← fixedDigits? 2 t
      if 60 < second then none
      else match t with
        | '.' :: fraction =>
            if (fraction.takeWhile Char.isDigit).isEmpty then none
            else some (fraction.dropWhile Char.isDigit)
        | _ => some t
  | t => some t

def afterTime? (t : Text) : Option Text := (afterMinutes? t).bind afterSeconds?

/-- Holds of an offset from universal time. -/
def isOffset : Text → Bool
  | [c] => c == 'Z' || c == 'z'
  | c :: t => (c == '+' || c == '-') && afterMinutes? t == some []
  | [] => false

/-- Holds of a date, a time, or both with or without an offset. -/
def isMoment (t : Text) : Bool :=
  match afterDate? t with
  | none => afterTime? t == some []
  | some [] => true
  | some (c :: t) =>
      (c == 'T' || c == 't' || c == ' ')
        && match afterTime? t with
          | none => false
          | some rest => rest.isEmpty || isOffset rest

end MeetingMail.Toml
