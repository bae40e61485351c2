import MeetingMail.Toml.Quoted

/-!
Keys. A key is a path of one or more parts with dots between them; a part is bare or quoted.

* `path?` reads the parts, and `key?` refuses a path of more than `partLimit` of them.
-/

namespace MeetingMail.Toml

def isKeyChar (c : Char) : Bool := c.isAlphanum || c == '_' || c == '-'

/-- One part of a key, and what follows it. -/
def keyPart? : Text → Option (Text × Text)
  | '"' :: rest => basic? rest
  | '\'' :: rest => literal? rest
  | t =>
      if (t.takeWhile isKeyChar).isEmpty then none
      else some (t.takeWhile isKeyChar, t.dropWhile isKeyChar)

theorem length_keyPart?_lt {t text rest : Text} (h : keyPart? t = some (text, rest)) :
    rest.length < t.length := by
  unfold keyPart? at h
  split at h
  · have := length_basic?_lt h
    simp only [List.length_cons]
    omega
  · have := length_literal?_lt h
    simp only [List.length_cons]
    omega
  · split at h
    · simp at h
    · rename_i ne
      simp only [Option.some.injEq, Prod.mk.injEq] at h
      obtain ⟨-, rfl⟩ := h
      have parts := congrArg List.length (List.takeWhile_append_dropWhile (p := isKeyChar) (l := t))
      have : 0 < (t.takeWhile isKeyChar).length := by
        cases hw : t.takeWhile isKeyChar <;> simp_all
      simp only [List.length_append] at parts
      omega

/-- The parts of a key, and what follows them and their trailing spaces. -/
def path? (t : Text) : Option (List Text × Text) :=
  match _h : keyPart? t with
  | none => none
  | some (part, rest) =>
      match _hs : skipSpaces rest with
      | '.' :: more => (path? (skipSpaces more)).map fun (path, rest) => (part :: path, rest)
      | rest => some ([part], rest)
termination_by t.length
decreasing_by
  have h₁ := length_keyPart?_lt _h
  have h₂ := length_skipSpaces_le rest
  have h₃ := length_skipSpaces_le more
  have h₄ := congrArg List.length _hs
  simp only [List.length_cons] at h₄
  omega

/-- The number of parts that a key may have. -/
def partLimit : Nat := 80

def key? (t : Text) : Option (List Text × Text) := (path? t).filter (·.1.length ≤ partLimit)

end MeetingMail.Toml
