import MeetingMail.Text.Lines

/-!
The text of a document without its tags.

* A tag is an opening angle bracket, at least one character that is not a closing one, and the
  first closing one after that.
* `plainText` removes the tags from left to right; all else stays as it is.
-/

namespace MeetingMail

/-- A text cut at its first closing angle bracket, which is in neither part. -/
def cutAtClosing? : Text → Option (Text × Text)
  | [] => none
  | c :: rest =>
      if c = '>' then some ([], rest)
      else (cutAtClosing? rest).map fun (inside, after) => (c :: inside, after)

theorem cutAtClosing?_eq_some_iff {t inside after : Text} :
    cutAtClosing? t = some (inside, after) ↔ t = inside ++ '>' :: after ∧ '>' ∉ inside := by
  induction t generalizing inside with
  | nil => simp [cutAtClosing?]
  | cons c rest ih =>
      rw [cutAtClosing?]
      split
      · subst c
        cases inside with
        | nil => simp [eq_comm]
        | cons d inside => simp; grind
      · cases inside with
        | nil => simp; grind
        | cons d inside => simp [ih]; grind

theorem length_cutAtClosing?_lt {t inside after : Text}
    (h : cutAtClosing? t = some (inside, after)) : after.length < t.length := by
  obtain ⟨rfl, -⟩ := cutAtClosing?_eq_some_iff.mp h
  simp only [List.length_append, List.length_cons]
  omega

/-- A document without its tags. Where no closing bracket is left, no tag is left either. -/
def plainText : Text → Text
  | [] => []
  | c :: rest =>
      if c = '<' then
        match _h : cutAtClosing? rest with
        | none => c :: rest
        | some ([], _) => c :: plainText rest
        | some (_ :: _, after) => plainText after
      else c :: plainText rest
termination_by t => t.length
decreasing_by
  · simp
  · have := length_cutAtClosing?_lt _h
    simp only [List.length_cons]
    omega
  · simp

end MeetingMail
