import MeetingMail.Markup.Entity
import MeetingMail.Summary.Line

/-!
The blocks that the lines of a summary become.

* Bullets that follow each other share one list: a list opens before the first of them and closes
  before the next line of another kind, or at the end.
* `ListState.step` and `ListState.close` say what a line and the end of the input add.
* `Block.ofLines` turns all lines of a summary into blocks.
-/

namespace MeetingMail

/-- A piece of the content of an email. A list is a sequence of blocks of its own. -/
inductive Block where
  | heading (level : Level) (text : Escaped)
  | paragraph (text : Escaped)
  | spacer
  | listOpen
  | item (text : Escaped)
  | listClose
  deriving DecidableEq

/-- Whether a bullet list is open. -/
inductive ListState where
  | outside
  | inside
  deriving DecidableEq, Repr

/-- No list is open at the start. -/
instance : Inhabited ListState := ⟨.outside⟩

/-- The block that a line becomes by itself. -/
def Line.block : Line → Block
  | .blank => .spacer
  | .heading level t => .heading level (.of t)
  | .bullet t => .item (.of t)
  | .paragraph t => .paragraph (.of t)

namespace ListState

/-- The blocks that end the list, if one is open. -/
def closing : ListState → List Block
  | .outside => []
  | .inside => [.listClose]

/-- Ends the list, if one is open: the new state and the blocks that are added. -/
def close (s : ListState) : ListState × List Block := (.outside, s.closing)

/-- The blocks that a line needs in front of it. -/
def before : ListState → Line → List Block
  | .outside, .bullet _ => [.listOpen]
  | .inside, .bullet _ => []
  | s, _ => s.closing

/-- The state after a line. -/
def after : Line → ListState
  | .bullet _ => .inside
  | _ => .outside

/-- Adds a line: the new state and the blocks that are added. -/
def step (s : ListState) (l : Line) : ListState × List Block :=
  (after l, s.before l ++ [l.block])

/-- The blocks of lines that follow a state, with the end of a list that stays open. -/
def blocks : ListState → List Line → List Block
  | s, [] => s.close.2
  | s, l :: ls => (s.step l).2 ++ (s.step l).1.blocks ls

end ListState

namespace Block

def ofLines (ls : List Line) : List Block := ListState.outside.blocks ls

def ofSummary (content : Text) : List Block := ofLines (Line.parse content)

end Block

end MeetingMail
