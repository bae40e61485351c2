import MeetingMail.Text.Lines

/-!
JSON documents made of strings, arrays and objects, and how they are printed.

* `Json.quote` writes a string with the shortest escape of each character that needs one.
* `Json.pretty` puts each item on a line of its own, indented by two spaces a level.
-/

namespace MeetingMail

/-- A JSON document without numbers, truth values and nulls. -/
inductive Json where
  | string (text : Text)
  | array (items : List Json)
  | object (members : List (Text × Json))
  deriving Repr

namespace Json

/-! ### Strings -/

/-- A character as it stands in a string. Control characters are escaped, by one letter if there
is one for them and else by their code in lower-case hexadecimal digits. -/
def quoteChar : Char → Text
  | '"' => ['\\', '"']
  | '\\' => ['\\', '\\']
  | '\x08' => ['\\', 'b']
  | '\x0c' => ['\\', 'f']
  | '\n' => ['\\', 'n']
  | '\r' => ['\\', 'r']
  | '\t' => ['\\', 't']
  | c =>
      if c.toNat < 0x20 then
        ['\\', 'u', '0', '0', Nat.digitChar (c.toNat / 16), Nat.digitChar (c.toNat % 16)]
      else [c]

/-- A string in its quotes. -/
def quote (t : Text) : Text := '"' :: t.flatMap quoteChar ++ ['"']

/-! ### Layout -/

/-- A line feed and the indentation of the next line. -/
def newline (indent : Nat) : Text := '\n' :: List.replicate indent ' '

/-- Pieces between brackets, each on a line of its own. -/
def bracketed (opening closing : Char) (indent : Nat) (pieces : List Text) : Text :=
  if pieces = [] then [opening, closing]
  else
    opening :: [','].intercalate (pieces.map (newline (indent + 2) ++ ·))
      ++ newline indent ++ [closing]

mutual

/-- A document that starts on a line with some indentation. -/
def prettyAt (indent : Nat) : Json → Text
  | .string t => quote t
  | .array items => bracketed '[' ']' indent (prettyItems (indent + 2) items)
  | .object members => bracketed '\x7b' '\x7d' indent (prettyMembers (indent + 2) members)

def prettyItems (indent : Nat) : List Json → List Text
  | [] => []
  | v :: vs => prettyAt indent v :: prettyItems indent vs

/-- The members of an object, each with its name. -/
def prettyMembers (indent : Nat) : List (Text × Json) → List Text
  | [] => []
  | (name, v) :: members =>
      (quote name ++ ':' :: ' ' :: prettyAt indent v) :: prettyMembers indent members

end

def pretty (v : Json) : Text := prettyAt 0 v

end Json

end MeetingMail
