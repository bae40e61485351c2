import MeetingMail.Toml.Moment
import MeetingMail.Toml.Number

/-!
Values that are written as one bare word: booleans, numbers, dates and times.

* A word ends at a space, at the end of its line, and at a character that has a meaning between
  values.
* A date may be joined to a time by one space, which makes the two a single word.
-/

namespace MeetingMail.Toml

def endsWord (c : Char) : Bool := "=,[]\x7b\x7d \t#\r\n".toList.contains c

/-- The characters that words are made of. -/
def isWordChar (c : Char) : Bool := !endsWord c

/-- The value that a whole word stands for. -/
def ofWord? (word : Text) : Option Value :=
  if word = "true".toList then some (.boolean true)
  else if word = "false".toList then some (.boolean false)
  else if isMoment word then some (.moment word)
  else match integer? word with
    | some i => some (.integer i)
    | none => (float? word).map .float

/-- The word at the start of a text, and what follows it. -/
def takeWord (t : Text) : Text × Text :=
  let word := t.takeWhile isWordChar
  match t.dropWhile isWordChar with
  | ' ' :: c :: rest =>
      if afterDate? word = some [] ∧ c.isDigit then
        (word ++ ' ' :: (c :: rest).takeWhile isWordChar, (c :: rest).dropWhile isWordChar)
      else (word, ' ' :: c :: rest)
  | rest => (word, rest)

/-- A bare value, and what follows it. -/
def word? (t : Text) : Option (Value × Text) :=
  let (word, rest) := takeWord t
  (ofWord? word).map fun v => (v, rest)

end MeetingMail.Toml
