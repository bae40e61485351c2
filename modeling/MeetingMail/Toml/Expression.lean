import MeetingMail.Toml.Key
import MeetingMail.Toml.Table
import MeetingMail.Toml.Word

/-!
The expressions of TOML: strings, bare values, arrays and inline tables.

* `items?` reads what arrays and inline tables have in common: items with commas between them, a
  comma after the last one allowed, and any layout around them.
* `value?` reads a value with a bound on how many brackets may be open at once.
-/

namespace MeetingMail.Toml

/-- Items up to a closing bracket, and what follows it. The bound counts the items. -/
def itemsUpTo? {α : Type} (item? : Text → Option (α × Text)) (close : Char) :
    (bound : Nat) → Text → Option (List α × Text)
  | 0, _ => none
  | bound + 1, t =>
      match skipGap t with
      | [] => none
      | c :: rest =>
          if c = close then some ([], rest)
          else (item? (c :: rest)).bind fun (a, rest) =>
            match skipGap rest with
            | ',' :: rest =>
                (itemsUpTo? item? close bound rest).map fun (as, rest) => (a :: as, rest)
            | c :: rest => if c = close then some ([a], rest) else none
            | [] => none

/-- Items up to a closing bracket, and what follows it. Each item but the last takes a comma, so a
text has no more items than characters. -/
def items? {α : Type} (item? : Text → Option (α × Text)) (close : Char) (t : Text) :
    Option (List α × Text) :=
  itemsUpTo? item? close (t.length + 1) t

/-- A key, an equals sign and a value, and what follows them. What may stand around the equals
sign is passed over by `skip`. -/
def pair? (skip : Text → Text) (value? : Text → Option (Value × Text)) (t : Text) :
    Option (Assignment × Text) :=
  (key? t).bind fun (path, rest) =>
    match skip rest with
    | '=' :: rest => (value? (skip rest)).map fun (v, rest) => (⟨path, v⟩, rest)
    | _ => none

/-- A value with at most `depth` brackets open at once, and what follows it. -/
def valueWithin? : (depth : Nat) → Text → Option (Value × Text)
  | depth, t =>
      match t with
      | '"' :: _ | '\'' :: _ => (quoted? t).map fun (text, rest) => (.string text, rest)
      | '[' :: rest =>
          match depth with
          | 0 => none
          | depth + 1 =>
              (items? (valueWithin? depth) ']' rest).map fun (vs, rest) => (.array false vs, rest)
      | '{' :: rest =>
          match depth with
          | 0 => none
          | depth + 1 =>
              (items? (pair? skipGap (valueWithin? depth)) '}' rest).bind fun (body, rest) =>
                (Entries.assignAll? body []).map fun es => (.table .inline es, rest)
      | _ => word? t

/-- The number of brackets that may be open at once. -/
def depthLimit : Nat := 80

def value? (t : Text) : Option (Value × Text) := valueWithin? depthLimit t

end MeetingMail.Toml
