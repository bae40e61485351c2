/-!
Text as a list of characters, and its division at line feeds.

* `Text.lines` cuts a text at every line feed, so a text always has at least one line.
* `Text.unlines` puts lines back together with one line feed between neighbours.
-/

namespace MeetingMail

/-- A text is the list of its Unicode characters. -/
abbrev Text := List Char

namespace Text

/-- The pieces of a text between its line feeds, in order. -/
def lines : Text → List Text
  | [] => [[]]
  | c :: rest => if c = '\n' then [] :: lines rest else (lines rest).modifyHead (c :: ·)

/-- Lines put together, with a line feed between each two neighbours. -/
def unlines (ls : List Text) : Text := ['\n'].intercalate ls

theorem lines_ne_nil (t : Text) : lines t ≠ [] := by
  cases t with
  | nil => simp [lines]
  | cons c rest =>
      rw [lines]
      split
      · simp
      · have ih := lines_ne_nil rest
        cases h : lines rest with
        | nil => exact absurd h ih
        | cons l ls => simp

@[simp] theorem lines_nil : lines [] = [[]] := rfl

@[simp] theorem lines_newline_cons (t : Text) : lines ('\n' :: t) = [] :: lines t := by
  simp [lines]

theorem lines_cons_of_ne {c : Char} (h : c ≠ '\n') (t : Text) :
    lines (c :: t) = (lines t).modifyHead (c :: ·) := by
  simp [lines, h]

@[simp] theorem unlines_singleton (l : Text) : unlines [l] = l := by
  simp [unlines]

theorem unlines_cons {ls : List Text} (h : ls ≠ []) (l : Text) :
    unlines (l :: ls) = l ++ '\n' :: unlines ls := by
  cases ls with
  | nil => exact absurd rfl h
  | cons l' ls => simp [unlines]

end Text

end MeetingMail
