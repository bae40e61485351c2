import MeetingMail.Text.Lines

/-!
The layout of a TOML document: spaces, line ends and comments.

* `endLine?` passes over what may follow the content of a line.
* `skipGap` passes over what may stand between the items of an array or an inline table.
-/

namespace MeetingMail.Toml

/-- The characters that separate words within a line. -/
def isSpace (c : Char) : Bool := c == ' ' || c == '\t'

def skipSpaces (t : Text) : Text := t.dropWhile isSpace

/-- The characters that may stand for themselves in comments and strings: the tab, and all that
are not control characters. -/
def isPlain (c : Char) : Bool := c == '\t' || (0x20 ≤ c.toNat && c.toNat != 0x7F)

/-- The text after a leading line end, which is a line feed with or without a carriage return. -/
def newline? : Text → Option Text
  | '\n' :: rest => some rest
  | '\r' :: '\n' :: rest => some rest
  | _ => none

def skipComment : Text → Text
  | '#' :: rest => rest.dropWhile isPlain
  | t => t

/-- The next line, if the rest of this one holds no more than spaces and a comment. -/
def endLine? (t : Text) : Option Text :=
  match skipComment (skipSpaces t) with
  | [] => some []
  | c :: rest => newline? (c :: rest)

theorem length_dropWhile_le (p : Char → Bool) (t : Text) : (t.dropWhile p).length ≤ t.length :=
  (List.dropWhile_sublist p).length_le

/-- The text after all leading spaces, line ends and comments. -/
def skipGap : Text → Text
  | [] => []
  | c :: rest =>
      if isSpace c || c == '\n' then skipGap rest
      else if c == '#' then skipGap (rest.dropWhile isPlain)
      else match c, rest with
        | '\r', '\n' :: rest => skipGap rest
        | _, _ => c :: rest
termination_by t => t.length
decreasing_by
  all_goals simp only [List.length_cons]
  · omega
  · have := length_dropWhile_le isPlain rest
    omega
  · omega

theorem isSpace_eq_false {c : Char} (h : c ∉ [' ', '\t']) : isSpace c = false := by
  simpa [isSpace] using h

theorem skipSpaces_cons_of_neg {c : Char} (h : isSpace c = false) (t : Text) :
    skipSpaces (c :: t) = c :: t := List.dropWhile_cons_of_neg (by simp [h])

theorem length_skipSpaces_le (t : Text) : (skipSpaces t).length ≤ t.length :=
  length_dropWhile_le isSpace t

theorem length_newline?_lt {t rest : Text} (h : newline? t = some rest) :
    rest.length < t.length := by
  unfold newline? at h
  split at h
  · simp_all
  · simp only [Option.some.injEq] at h
    subst h
    simp only [List.length_cons]
    omega
  · simp at h

end MeetingMail.Toml
