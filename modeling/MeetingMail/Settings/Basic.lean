import MeetingMail.Text.Lines

/-!
The settings of an email: its standing texts, its sizes and the styles of its elements.

* `Settings.standard` holds the values that apply where a settings file is silent.
* `Settings.titleFor` chooses between a given title and the standing one.
-/

namespace MeetingMail

/-- The standing texts of an email and its sizes in pixels. -/
structure DocumentSettings where
  /-- Used where no title is given, or an empty one. -/
  title : Text := "Meeting Summary".toList
  footer : Text := "Sent from AI Meeting Summarizer".toList
  /-- The width of the centred column. -/
  width : UInt32 := 640
  /-- The height of the gap that a blank line leaves. -/
  spacerHeight : UInt32 := 10
  deriving DecidableEq, Repr

/-- The values of the style attributes of the elements that a summary is made of. -/
structure Styles where
  h2 : Text := "margin:18px 0 10px;font-size:16px;color:#0f172a".toList
  h3 : Text := "margin:16px 0 8px;font-size:14px;color:#0f172a".toList
  p : Text := "margin:8px 0;line-height:1.6;color:#111827".toList
  ul : Text := "margin:6px 0 6px 20px;padding:0;color:#111827".toList
  li : Text := "margin:4px 0;line-height:1.5".toList
  deriving DecidableEq, Repr

/-- All that can be set for an email. -/
structure Settings where
  document : DocumentSettings := {}
  styles : Styles := {}
  deriving DecidableEq, Repr

namespace Settings

/-- The settings that apply where nothing else is said. -/
def standard : Settings := {}

/-- The title of an email: the given one unless it is missing or empty. -/
def titleFor (settings : Settings) : Option Text → Text
  | none | some [] => settings.document.title
  | some title => title

@[simp] theorem titleFor_none (s : Settings) : s.titleFor none = s.document.title := rfl

@[simp] theorem titleFor_nil (s : Settings) : s.titleFor (some []) = s.document.title := rfl

theorem titleFor_of_ne_nil (s : Settings) {t : Text} (h : t ≠ []) :
    s.titleFor (some t) = t := by
  cases t with
  | nil => exact absurd rfl h
  | cons c t => rfl

/-- A title that has been chosen is chosen again. -/
theorem titleFor_titleFor (s : Settings) (title : Option Text) :
    s.titleFor (some (s.titleFor title)) = s.titleFor title := by
  by_cases h : s.titleFor title = []
  · match title with
    | none | some [] => simp_all
    | some (c :: t) => simp [titleFor] at h
  · exact s.titleFor_of_ne_nil h

end Settings

end MeetingMail
