import MeetingMail.Markup.Token
import MeetingMail.Settings.Basic
import MeetingMail.Summary.Block
import MeetingMail.Text.Decimal

/-!
The content of an email: its blocks as markup.

* `Block.tokens` gives the tags and the text of one block under some settings.
* `Block.contentTokens` puts the blocks together, one on a line.
-/

namespace MeetingMail

def Level.element : Level → Element
  | .two => .h2
  | .three => .h3

def Styles.heading (styles : Styles) : Level → Text
  | .two => styles.h2
  | .three => styles.h3

def styleOf (value : Text) : Attribute := ⟨.style, value⟩

/-- An element with a style that holds nothing but text. -/
def styledText (e : Element) (style : Text) (content : Escaped) : List Token :=
  [.opening e [styleOf style], .text content, .closing e]

/-- The style of the gap that a blank line leaves. -/
def spacerStyle (height : UInt32) : Text :=
  "height:".toList ++ Text.ofNat height.toNat ++ "px".toList

namespace Block

/-- The markup of one block. -/
def tokens (settings : Settings) : Block → List Token
  | .heading level t => styledText level.element (settings.styles.heading level) t
  | .paragraph t => styledText .p settings.styles.p t
  | .spacer =>
      [.opening .div [styleOf (spacerStyle settings.document.spacerHeight)], .closing .div]
  | .listOpen => [.opening .ul [styleOf settings.styles.ul]]
  | .item t => styledText .li settings.styles.li t
  | .listClose => [.closing .ul]

/-- The line feed between two blocks. -/
def separator : Token := .text (.of ['\n'])

/-- The markup of blocks, one on a line. -/
def contentTokens (settings : Settings) (blocks : List Block) : List Token :=
  [separator].intercalate (blocks.map (tokens settings))

@[simp] theorem contentTokens_nil (settings : Settings) : contentTokens settings [] = [] := rfl

@[simp] theorem contentTokens_singleton (settings : Settings) (b : Block) :
    contentTokens settings [b] = b.tokens settings := by
  simp [contentTokens]

theorem contentTokens_cons (settings : Settings) (b : Block) {bs : List Block} (h : bs ≠ []) :
    contentTokens settings (b :: bs)
      = b.tokens settings ++ separator :: contentTokens settings bs := by
  cases bs with
  | nil => exact absurd rfl h
  | cons c bs => simp [contentTokens]

theorem contentTokens_append (settings : Settings) {bs cs : List Block} (hbs : bs ≠ [])
    (hcs : cs ≠ []) :
    contentTokens settings (bs ++ cs)
      = contentTokens settings bs ++ separator :: contentTokens settings cs := by
  induction bs with
  | nil => exact absurd rfl hbs
  | cons b bs ih =>
      cases bs with
      | nil =>
          rw [List.singleton_append, contentTokens_cons settings b hcs, contentTokens_singleton]
      | cons c bs =>
          have hleft : contentTokens settings (b :: (c :: bs ++ cs))
              = b.tokens settings ++ separator :: contentTokens settings (c :: bs ++ cs) :=
            contentTokens_cons settings b (List.cons_ne_nil _ _)
          rw [List.cons_append, hleft, ih (List.cons_ne_nil c bs),
            contentTokens_cons settings b (List.cons_ne_nil c bs), List.append_assoc,
            List.cons_append]

/-- Blocks as they stand in a document. -/
def renderContent (settings : Settings) (blocks : List Block) : Text :=
  renderTokens (contentTokens settings blocks)

end Block

end MeetingMail
