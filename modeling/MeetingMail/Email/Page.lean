import MeetingMail.Email.Content
import MeetingMail.Markup.Plain
import MeetingMail.Text.Utf8

/-!
The page of an email: a title, a banner that shows it, the content and a footer, in tables that
mail clients lay out alike.

* `Email.tokens` is the whole page as tokens: a fixed skeleton around the title, the content and
  the footer.
* `Email.render` is the page as text.
* `renderSummaryM` goes all the way from a summary, and tells of the blocks that it has made.
  `renderSummary` is its page. `renderSummaryM_eq`: whoever listens, it tells once.
-/

namespace MeetingMail

/-- A title and the blocks that are shown under it. -/
structure Email where
  title : Text
  blocks : List Block
  deriving DecidableEq

/-- A line feed and the indentation of the next line. -/
def margin (width : Nat) : Text := '\n' :: List.replicate width ' '

theorem escapeText_margin (width : Nat) : escapeText (margin width) = margin width := by
  have hspaces : escapeText (List.replicate width ' ') = List.replicate width ' ' := by
    induction width with
    | zero => rfl
    | succ n ih => exact congrArg (' ' :: ·) ih
  exact congrArg ('\n' :: ·) hspaces

namespace Email

/-- The white space between two tags of the page. -/
def indent (width : Nat) : Token := .text (.of (margin width))

/-- The attributes that the tables of the page share. -/
def tableAttributes (width style : Text) : List Attribute :=
  [.of .role "presentation", .of .cellpadding "0", .of .cellspacing "0", ⟨.width, width⟩,
    styleOf style]

/-- The style of the centred column. -/
def columnStyle (width : UInt32) : Text :=
  "max-width:".toList ++ Text.ofNat width.toNat
    ++ ("px;background:#ffffff;border:1px solid #e5e7eb;border-radius:12px;".toList
      ++ "overflow:hidden".toList)

def headTokens (title : Text) : List Token :=
  [.doctype, indent 0, .opening .html [], indent 2, .opening .head [], indent 4,
    .single .metadata [.of .charset "UTF-8"], indent 4,
    .single .metadata
      [.of .name "viewport", .of .content "width=device-width,initial-scale=1"], indent 4,
    .opening .title [], .text (.of title), .closing .title, indent 2, .closing .head, indent 2]

/-- The tables that centre the column of the page. -/
def columnTokens (width : UInt32) : List Token :=
  [.opening .body [.of .style "margin:0;padding:0;background:#f3f4f6"], indent 4,
    .opening .table
      (tableAttributes "100%".toList "background:#f3f4f6;padding:24px 0".toList), indent 6,
    .opening .tr [], indent 8, .opening .td [.of .align "center"], indent 10,
    .opening .table
      (tableAttributes (Text.ofNat width.toNat) (columnStyle width)), indent 12]

def bannerTokens (title : Text) : List Token :=
  [.opening .tr [], indent 14, .opening .td [.of .style "padding:16px 20px;background:#0f172a"],
    indent 16, .opening .h1 [.of .style "margin:0;font-size:18px;color:#f8fafc"],
    .text (.of title), .closing .h1, indent 14, .closing .td, indent 12, .closing .tr, indent 12]

def contentRowTokens (content : List Token) : List Token :=
  [.opening .tr [], indent 14, .opening .td [.of .style "padding:18px 20px"], indent 16]
    ++ content ++ [indent 14, .closing .td, indent 12, .closing .tr, indent 12]

def footerTokens (footer : Text) : List Token :=
  [.opening .tr [], indent 14,
    .opening .td
      [.of .style "padding:14px 20px;background:#f8fafc;color:#475569;font-size:12px"],
    indent 16, .text (.of footer), indent 14, .closing .td, indent 12, .closing .tr, indent 10]

def endTokens : List Token :=
  [.closing .table, indent 8, .closing .td, indent 6, .closing .tr, indent 4, .closing .table,
    indent 2, .closing .body, indent 0, .closing .html]

def tokens (settings : Settings) (email : Email) : List Token :=
  headTokens email.title ++ columnTokens settings.document.width ++ bannerTokens email.title
    ++ contentRowTokens (Block.contentTokens settings email.blocks)
    ++ footerTokens settings.document.footer ++ endTokens

def render (settings : Settings) (email : Email) : Text := renderTokens (email.tokens settings)

/-- Blocks under the given title, or under the standing one. -/
def ofBlocks (settings : Settings) (title : Option Text) (blocks : List Block) : Email :=
  ⟨settings.titleFor title, blocks⟩

end Email

/-! ### From a summary to a page -/

section Tell

variable {m : Type → Type} [Monad m] (tell : (blocks bytes : Nat) → m Unit)

/-- The page of a summary. The number of its blocks and the size of the summary are told. -/
def renderSummaryM (settings : Settings) (title : Option Text) (content : Text) : m Text := do
  let blocks := Block.ofSummary content
  tell blocks.length content.utf8Size
  return (Email.ofBlocks settings title blocks).render settings

/-- The page of a summary, where nobody listens. -/
def renderSummary (settings : Settings) (title : Option Text) (content : Text) : Text :=
  Id.run (renderSummaryM (fun _ _ => pure ()) settings title content)

theorem renderSummary_eq (settings : Settings) (title : Option Text) (content : Text) :
    renderSummary settings title content =
      (Email.ofBlocks settings title (Block.ofSummary content)).render settings := rfl

/-- The page does not depend on who listens, and what is told does not depend on the page. -/
theorem renderSummaryM_eq [LawfulMonad m] (settings : Settings) (title : Option Text)
    (content : Text) :
    renderSummaryM tell settings title content =
      (fun _ => renderSummary settings title content) <$>
        tell (Block.ofSummary content).length content.utf8Size := by
  rw [map_eq_pure_bind]
  rfl

end Tell

end MeetingMail
