import MeetingMail.Toml.Expression

/-!
TOML documents.

* `Statement` is the content of one line: a header, or a key with its value.
* `statements?` reads the lines of a text; lines without content leave no statement.
* `Entries.ofStatements?` builds the table that the lines describe.
* `parse?` does both: it is `none` exactly if the text is no document or sets something twice.
-/

namespace MeetingMail.Toml

/-- A header: the path of a table, or of an array of tables that it adds a row to. -/
inductive Header where
  | table (path : List Text)
  | row (path : List Text)
  deriving Repr

inductive Statement where
  | header (h : Header)
  | assignment (a : Assignment)
  deriving Repr

/-! ### Lines -/

/-- A statement, and what follows it. -/
def statement? : Text → Option (Statement × Text)
  | '[' :: '[' :: rest =>
      (key? (skipSpaces rest)).bind fun (path, rest) =>
        match rest with
        | ']' :: ']' :: rest => some (.header (.row path), rest)
        | _ => none
  | '[' :: rest =>
      (key? (skipSpaces rest)).bind fun (path, rest) =>
        match rest with
        | ']' :: rest => some (.header (.table path), rest)
        | _ => none
  | t => (pair? skipSpaces value? t).map fun (a, rest) => (.assignment a, rest)

/-- The statements of a text of at most `bound` lines. -/
def statementsUpTo? : (bound : Nat) → Text → Option (List Statement)
  | _, [] => some []
  | 0, _ :: _ => none
  | bound + 1, c :: t =>
      match endLine? (c :: t) with
      | some rest => statementsUpTo? bound rest
      | none =>
          (statement? (skipSpaces (c :: t))).bind fun (s, rest) =>
            (endLine? rest).bind fun rest => (statementsUpTo? bound rest).map (s :: ·)

/-- The statements of a text. A text has no more lines that are not empty than characters. -/
def statements? (t : Text) : Option (List Statement) := statementsUpTo? t.length t

/-! ### Tables -/

/-- Statements cut at their headers: the assignments in front of the first header, and each
header with the assignments under it. -/
def sections : List Statement → List Assignment × List (Header × List Assignment)
  | [] => ([], [])
  | .assignment a :: rest => let (body, more) := sections rest; (a :: body, more)
  | .header h :: rest => let (body, more) := sections rest; ([], (h, body) :: more)

/-- The entries with a header and the assignments under it. -/
def Entries.openSection? (es : Entries) : Header × List Assignment → Option Entries
  | (.table path, body) => es.openTable? path body
  | (.row path, body) => es.openRow? path body

/-- The table that statements describe. -/
def Entries.ofStatements? (ss : List Statement) : Option Entries :=
  let (body, more) := sections ss
  (Entries.assignAll? body []).bind fun es => more.foldlM Entries.openSection? es

/-- A byte order mark at the start of a text is no part of the document. -/
def dropByteOrderMark : Text → Text
  | '\uFEFF' :: rest => rest
  | t => t

/-- The table that a TOML text describes. -/
def parse? (t : Text) : Option Entries :=
  (statements? (dropByteOrderMark t)).bind Entries.ofStatements?

end MeetingMail.Toml
