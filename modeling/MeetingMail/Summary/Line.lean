import MeetingMail.Text.Blank

/-!
The lines of a meeting summary.

* A summary is plain text in which a marker at the start of a line makes it a heading or an item
  of a bullet list.
* `Line.classify` finds the kind of a line that has been trimmed, and `Line.parse` reads a whole
  summary.
* `Line.unparse` writes lines as a summary again.
-/

namespace MeetingMail

inductive Level where
  | two
  | three
  deriving DecidableEq, Repr

/-- A line of a summary, without its marker. -/
inductive Line where
  | blank
  | heading (level : Level) (text : Text)
  | bullet (text : Text)
  | paragraph (text : Text)
  deriving DecidableEq, Repr

/-- The marker of a heading, with the space that ends it. -/
def Level.marker : Level → Text
  | .two => "## ".toList
  | .three => "### ".toList

/-- The marker of an item of a bullet list, with the space that ends it. -/
def bulletMarker : Text := "* ".toList

namespace Line

/-- The lines of a summary without the blanks at their ends. A carriage return in front of a line
feed is one of these blanks. -/
def trimmedLines (content : Text) : List Text := content.lines.map Text.trim

/-- The kind of a trimmed line. Blanks behind a marker belong to the marker. -/
def classify (line : Text) : Line :=
  if line = [] then .blank
  else if let some rest := Level.three.marker.isPrefixOf? line then
    .heading .three (Text.trimStart rest)
  else if let some rest := Level.two.marker.isPrefixOf? line then
    .heading .two (Text.trimStart rest)
  else if let some rest := bulletMarker.isPrefixOf? line then .bullet (Text.trimStart rest)
  else .paragraph line

def parse (content : Text) : List Line := (trimmedLines content).map classify

/-- An empty summary has a line too, a blank one. -/
theorem parse_ne_nil (content : Text) : parse content ≠ [] := by
  simp [parse, trimmedLines, Text.lines_ne_nil]

def marker : Line → Text
  | .heading level _ => level.marker
  | .bullet _ => bulletMarker
  | _ => []

/-- The text of a line behind its marker. -/
def text : Line → Text
  | .blank => []
  | .heading _ t | .bullet t | .paragraph t => t

def write (l : Line) : Text := l.marker ++ l.text

def unparse (ls : List Line) : Text := Text.unlines (ls.map write)

end Line

end MeetingMail
