import MeetingMail.Text.Hexadecimal
import MeetingMail.Toml.Layout

/-!
The four string forms of TOML, read from behind their opening quotes.

* `basic?` and `literal?` read the forms that stay on one line; `basic?` knows escapes.
* `longBasic?` and `longLiteral?` read the forms in triple quotes, which may hold line ends.
* Each gives the text of the string and what follows its closing quotes.
-/

namespace MeetingMail.Toml

open Text (hexNumber? scalar? prepend length_hexNumber?_le length_prepend_lt)

/-! ### Escapes -/

/-- The character that a one-letter escape stands for. -/
def shortEscape? : Char → Option Char
  | 'b' => some '\x08'
  | 't' => some '\t'
  | 'n' => some '\n'
  | 'f' => some '\x0c'
  | 'r' => some '\r'
  | 'e' => some '\x1b'
  | '"' => some '"'
  | '\\' => some '\\'
  | _ => none

/-- The number of hexadecimal digits that an escape takes. -/
def escapeWidth? : Char → Option Nat
  | 'x' => some 2
  | 'u' => some 4
  | 'U' => some 8
  | _ => none

/-- The character that an escape stands for, read from behind its backslash. -/
def escape? : Text → Option (Char × Text)
  | [] => none
  | c :: rest =>
      match shortEscape? c with
      | some d => some (d, rest)
      | none => do
          let width ← escapeWidth? c
          let (code, rest) ← hexNumber? width 0 rest
          let d ← scalar? code
          some (d, rest)

theorem length_escape?_lt {t rest : Text} {d : Char} (h : escape? t = some (d, rest)) :
    rest.length < t.length := by
  cases t with
  | nil => simp [escape?] at h
  | cons c t =>
      simp only [escape?] at h
      split at h
      · simp_all
      · simp only [Option.bind_eq_bind, Option.bind_eq_some_iff, Option.some.injEq,
          Prod.mk.injEq] at h
        obtain ⟨width, -, ⟨code, rest'⟩, hn, d', -, -, rfl⟩ := h
        have := length_hexNumber?_le hn
        simp only [List.length_cons]
        omega

/-! ### Strings on one line -/

/-- A basic string, up to its closing quote. -/
def basic? : Text → Option (Text × Text)
  | [] => none
  | c :: rest =>
      if c = '"' then some ([], rest)
      else if c = '\\' then
        match _h : escape? rest with
        | some (d, rest) => prepend d (basic? rest)
        | none => none
      else if isPlain c then prepend c (basic? rest)
      else none
termination_by t => t.length
decreasing_by
  · have := length_escape?_lt _h
    simp only [List.length_cons]
    omega
  · simp

/-- A literal string, up to its closing quote. -/
def literal? : Text → Option (Text × Text)
  | [] => none
  | c :: rest =>
      if c = '\'' then some ([], rest)
      else if isPlain c then prepend c (literal? rest)
      else none

theorem length_basic?_lt {t text rest : Text} (h : basic? t = some (text, rest)) :
    rest.length < t.length := by
  fun_induction basic? t generalizing text rest with
  | case1 => simp at h
  | case2 => simp_all
  | case3 rest' d rest'' he _ ih =>
      have := length_escape?_lt he
      have := length_prepend_lt (fun _ _ h => ih h) h
      simp only [List.length_cons]
      omega
  | case4 => simp at h
  | case5 c rest' _ _ _ ih =>
      have := length_prepend_lt (fun _ _ h => ih h) h
      simp only [List.length_cons]
      omega
  | case6 => simp at h

theorem length_literal?_lt {t text rest : Text} (h : literal? t = some (text, rest)) :
    rest.length < t.length := by
  fun_induction literal? t generalizing text rest with
  | case1 => simp at h
  | case2 => simp_all
  | case3 c rest' _ _ ih =>
      have := length_prepend_lt (fun _ _ h => ih h) h
      simp only [List.length_cons]
      omega
  | case4 => simp at h

/-! ### Strings in triple quotes -/

/-- Closes a string at a run of three or more quotes. Up to two of them in front of the closing
three belong to the string. -/
def closeLong? (quote : Char) (t : Text) : Option (Text × Text) :=
  let run := (t.takeWhile (· == quote)).length
  if run < 3 then none
  else
    let kept := min (run - 3) 2
    some (List.replicate kept quote, t.drop (kept + 3))

/-- The text after all leading spaces and line ends. -/
def skipLineEnds : Text → Text
  | [] => []
  | c :: rest =>
      if isSpace c || c == '\n' then skipLineEnds rest
      else match c, rest with
        | '\r', '\n' :: rest => skipLineEnds rest
        | _, _ => c :: rest

/-- The text after a folded line end: a backslash at the end of a line, read from behind it, takes
the line end and all leading blanks of the lines after it out of the string. -/
def foldLine? (t : Text) : Option Text :=
  (newline? (skipSpaces t)).map skipLineEnds

theorem length_skipLineEnds_le (t : Text) : (skipLineEnds t).length ≤ t.length := by
  fun_induction skipLineEnds t <;> simp_all <;> omega

theorem length_foldLine?_lt {t rest : Text} (h : foldLine? t = some rest) :
    rest.length < t.length := by
  simp only [foldLine?, Option.map_eq_some_iff] at h
  obtain ⟨u, hu, rfl⟩ := h
  have h₁ := length_newline?_lt hu
  have h₂ := length_skipLineEnds_le u
  have h₃ := length_skipSpaces_le t
  omega

/-- A basic string in triple quotes, up to its closing quotes. -/
def longBasic? (t : Text) : Option (Text × Text) :=
  match closeLong? '"' t, t with
  | some closed, _ => some closed
  | none, [] => none
  | none, c :: rest =>
      if c = '\\' then
        match _h : foldLine? rest with
        | some rest => longBasic? rest
        | none =>
            match _h : escape? rest with
            | some (d, rest) => prepend d (longBasic? rest)
            | none => none
      else if c = '\n' ∨ isPlain c then prepend c (longBasic? rest)
      else match c, rest with
        | '\r', '\n' :: rest => prepend '\r' (prepend '\n' (longBasic? rest))
        | _, _ => none
termination_by t.length
decreasing_by
  all_goals simp only [List.length_cons]
  · have := length_foldLine?_lt _h
    omega
  · have := length_escape?_lt _h
    omega
  · omega
  · omega

/-- A literal string in triple quotes, up to its closing quotes. -/
def longLiteral? (t : Text) : Option (Text × Text) :=
  match closeLong? '\'' t, t with
  | some closed, _ => some closed
  | none, [] => none
  | none, c :: rest =>
      if c = '\n' ∨ isPlain c then prepend c (longLiteral? rest)
      else match c, rest with
        | '\r', '\n' :: rest => prepend '\r' (prepend '\n' (longLiteral? rest))
        | _, _ => none
termination_by t.length

/-- A string in triple quotes starts behind the line end that follows its opening quotes. -/
def dropNewline (t : Text) : Text := (newline? t).getD t

def quoted? : Text → Option (Text × Text)
  | '"' :: '"' :: '"' :: rest => longBasic? (dropNewline rest)
  | '\'' :: '\'' :: '\'' :: rest => longLiteral? (dropNewline rest)
  | '"' :: rest => basic? rest
  | '\'' :: rest => literal? rest
  | _ => none

end MeetingMail.Toml
