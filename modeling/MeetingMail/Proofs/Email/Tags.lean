import MeetingMail.Email.Page
import MeetingMail.Proofs.Markup.Scan

/-!
The tags of an email and the texts between them.

* `shownPage` spells out what the page of an email shows: each tag with the values of its
  attributes, and the text behind it.
* `scan?_render`: this and nothing else is what a page is read as, whatever its title, its blocks
  and its settings hold.
-/

namespace MeetingMail

/-! ### What a page shows -/

def startTag (name : String) (attributes : List (String × Text)) : Tag :=
  .opening name.toList (attributes.map fun (key, value) => (key.toList, value))

def voidTag (name : String) (attributes : List (String × Text)) : Tag :=
  .single name.toList (attributes.map fun (key, value) => (key.toList, value))

def endTag (name : String) : Tag := .closing name.toList

/-- An element with a style that shows a text. -/
def shownElement (name : String) (style content behind : Text) : List (Tag × Text) :=
  [(startTag name [("style", style)], content), (endTag name, behind)]

/-- What a block shows in front of some text. -/
def Block.shown (settings : Settings) (behind : Text) : Block → List (Tag × Text)
  | .heading .two t => shownElement "h2" settings.styles.h2 t.raw behind
  | .heading .three t => shownElement "h3" settings.styles.h3 t.raw behind
  | .paragraph t => shownElement "p" settings.styles.p t.raw behind
  | .spacer =>
      shownElement "div"
        ("height:".toList ++ Text.ofNat settings.document.spacerHeight.toNat ++ "px".toList) []
        behind
  | .listOpen => [(startTag "ul" [("style", settings.styles.ul)], behind)]
  | .item t => shownElement "li" settings.styles.li t.raw behind
  | .listClose => [(endTag "ul", behind)]

/-- What blocks show in front of some text, with a line feed between each two of them. -/
def shownBlocks (settings : Settings) (behind : Text) : List Block → List (Tag × Text)
  | [] => []
  | [b] => b.shown settings behind
  | b :: bs => b.shown settings ['\n'] ++ shownBlocks settings behind bs

def shownHead (title : Text) : List (Tag × Text) :=
  [(.declaration "DOCTYPE html".toList, margin 0), (startTag "html" [], margin 2),
    (startTag "head" [], margin 4), (voidTag "meta" [("charset", "UTF-8".toList)], margin 4),
    (voidTag "meta" [("name", "viewport".toList),
      ("content", "width=device-width,initial-scale=1".toList)], margin 4),
    (startTag "title" [], title), (endTag "title", margin 2), (endTag "head", margin 2)]

/-- The tags of the tables around the rows. -/
def shownTables (width : Text) : List (Tag × Text) :=
  [(startTag "body" [("style", "margin:0;padding:0;background:#f3f4f6".toList)], margin 4),
    (startTag "table" [("role", "presentation".toList), ("cellpadding", "0".toList),
      ("cellspacing", "0".toList), ("width", "100%".toList),
      ("style", "background:#f3f4f6;padding:24px 0".toList)], margin 6),
    (startTag "tr" [], margin 8), (startTag "td" [("align", "center".toList)], margin 10),
    (startTag "table" [("role", "presentation".toList), ("cellpadding", "0".toList),
      ("cellspacing", "0".toList), ("width", width),
      ("style", "max-width:".toList ++ width
        ++ ("px;background:#ffffff;border:1px solid #e5e7eb;border-radius:12px;".toList
          ++ "overflow:hidden".toList))], margin 12)]

def shownBanner (title : Text) : List (Tag × Text) :=
  [(startTag "tr" [], margin 14),
    (startTag "td" [("style", "padding:16px 20px;background:#0f172a".toList)], margin 16),
    (startTag "h1" [("style", "margin:0;font-size:18px;color:#f8fafc".toList)], title),
    (endTag "h1", margin 14), (endTag "td", margin 12), (endTag "tr", margin 12)]

def shownContent (settings : Settings) (blocks : List Block) : List (Tag × Text) :=
  [(startTag "tr" [], margin 14),
    (startTag "td" [("style", "padding:18px 20px".toList)],
      match blocks with
      | [] => margin 16 ++ margin 14
      | _ :: _ => margin 16)]
    ++ shownBlocks settings (margin 14) blocks
    ++ [(endTag "td", margin 12), (endTag "tr", margin 12)]

def shownFooter (footer : Text) : List (Tag × Text) :=
  [(startTag "tr" [], margin 14),
    (startTag "td" [("style",
      "padding:14px 20px;background:#f8fafc;color:#475569;font-size:12px".toList)],
      margin 16 ++ footer ++ margin 14),
    (endTag "td", margin 12), (endTag "tr", margin 10)]

/-- The tags that are still to be closed. -/
def shownEnd : List (Tag × Text) :=
  [(endTag "table", margin 8), (endTag "td", margin 6), (endTag "tr", margin 4),
    (endTag "table", margin 2), (endTag "body", margin 0), (endTag "html", [])]

def shownPage (settings : Settings) (email : Email) : List (Tag × Text) :=
  shownHead email.title ++ shownTables (Text.ofNat settings.document.width.toNat)
    ++ shownBanner email.title ++ shownContent settings email.blocks
    ++ shownFooter settings.document.footer ++ shownEnd

/-! ### Tokens and what they show -/

open Reading

theorem foldr_styledText (e : Element) (style : Text) (t : Escaped) (r : Reading) :
    (styledText e style t).foldr Token.shownOnto r
      = ⟨[], (.opening e.name [("style".toList, style)], t.raw) :: (.closing e.name, r.lead)
          :: r.tags⟩ := by
  change addTag _ (addText t.raw (addTag _ r)) = _
  rw [addText_addTag]
  rfl

/-- The tokens of a block show the block. -/
theorem Block.foldr_tokens (settings : Settings) (b : Block) (r : Reading) :
    (b.tokens settings).foldr Token.shownOnto r = ⟨[], b.shown settings r.lead ++ r.tags⟩ := by
  rcases b with ⟨_ | _, t⟩ | t | _ | _ | t | _
  · exact foldr_styledText .h2 settings.styles.h2 t r
  · exact foldr_styledText .h3 settings.styles.h3 t r
  · exact foldr_styledText .p settings.styles.p t r
  · rfl
  · rfl
  · exact foldr_styledText .li settings.styles.li t r
  · rfl

/-- The tokens of the content show the blocks. Where there are none, they show nothing. -/
theorem foldr_contentTokens (settings : Settings) (b : Block) (bs : List Block) (r : Reading) :
    (Block.contentTokens settings (b :: bs)).foldr Token.shownOnto r
      = ⟨[], shownBlocks settings r.lead (b :: bs) ++ r.tags⟩ := by
  induction bs generalizing b with
  | nil =>
      rw [Block.contentTokens_singleton]
      exact b.foldr_tokens settings r
  | cons c bs ih =>
      rw [Block.contentTokens_cons settings b (List.cons_ne_nil c bs), List.foldr_append,
        List.foldr_cons, ih, Block.foldr_tokens]
      rw [Block.separator, Token.shownOnto_of, lead_addText, tags_addText]
      simp only [shownBlocks, List.append_nil, List.append_assoc]

section Parts

variable (tags : List (Tag × Text))

theorem foldr_headTokens (title : Text) :
    (Email.headTokens title).foldr Token.shownOnto ⟨[], tags⟩ = ⟨[], shownHead title ++ tags⟩ := by
  simp only [Email.headTokens, Email.indent, List.foldr, Token.shownOnto, Escaped.raw_of,
    addText_addTag]
  rfl

theorem foldr_columnTokens (width : UInt32) :
    (Email.columnTokens width).foldr Token.shownOnto ⟨[], tags⟩
      = ⟨[], shownTables (Text.ofNat width.toNat) ++ tags⟩ := by
  simp only [Email.columnTokens, Email.indent, List.foldr, Token.shownOnto, Escaped.raw_of,
    addText_addTag]
  rfl

theorem foldr_bannerTokens (title : Text) :
    (Email.bannerTokens title).foldr Token.shownOnto ⟨[], tags⟩
      = ⟨[], shownBanner title ++ tags⟩ := by
  simp only [Email.bannerTokens, Email.indent, List.foldr, Token.shownOnto, Escaped.raw_of,
    addText_addTag]
  rfl

theorem foldr_contentRowTokens (settings : Settings) (blocks : List Block) :
    (Email.contentRowTokens (Block.contentTokens settings blocks)).foldr Token.shownOnto ⟨[], tags⟩
      = ⟨[], shownContent settings blocks ++ tags⟩ := by
  cases blocks with
  | nil =>
      simp only [Email.contentRowTokens, Block.contentTokens_nil, Email.indent, List.append_nil,
        List.cons_append, List.nil_append, List.foldr, Token.shownOnto, Escaped.raw_of,
        addText_addTag, addText_mk]
      rfl
  | cons b bs =>
      simp only [Email.contentRowTokens, Email.indent, List.foldr_append, List.foldr,
        Token.shownOnto, Escaped.raw_of, addText_addTag, foldr_contentTokens, shownContent,
        List.append_assoc]
      rfl

theorem foldr_footerTokens (footer : Text) :
    (Email.footerTokens footer).foldr Token.shownOnto ⟨[], tags⟩
      = ⟨[], shownFooter footer ++ tags⟩ := by
  simp only [Email.footerTokens, Email.indent, List.foldr, Token.shownOnto, Escaped.raw_of,
    addText_addTag, addText_mk, shownFooter, List.append_assoc]
  rfl

theorem foldr_endTokens :
    Email.endTokens.foldr Token.shownOnto ⟨[], []⟩ = ⟨[], shownEnd⟩ := by
  simp only [Email.endTokens, Email.indent, List.foldr, Token.shownOnto, Escaped.raw_of]
  rfl

end Parts

/-- The tokens of a page show what is spelled out for it. -/
theorem foldr_tokens (settings : Settings) (email : Email) :
    (email.tokens settings).foldr Token.shownOnto ⟨[], []⟩ = ⟨[], shownPage settings email⟩ := by
  simp only [Email.tokens, List.foldr_append, foldr_endTokens, foldr_footerTokens,
    foldr_contentRowTokens, foldr_bannerTokens, foldr_columnTokens, foldr_headTokens, shownPage,
    List.append_assoc]

/-- Whatever the title, the blocks and the settings of an email hold, its page is read as the
tags of the skeleton and of the blocks and the texts between them, and every angle bracket of it
belongs to one of these tags. -/
theorem scan?_render (settings : Settings) (email : Email) :
    ∃ r : Reading, scan? (email.render settings) = some r ∧
      r.decode = ⟨[], shownPage settings email⟩ ∧
      (email.render settings).count '<' = r.tags.length ∧
      (email.render settings).count '>' = r.tags.length ∧
      ∀ t : Text, (Escaped.of t).raw = t := by
  refine ⟨.ofTokens (email.tokens settings), scan?_renderTokens _, ?_,
    count_bracket_renderTokens (.inl rfl) _, count_bracket_renderTokens (.inr rfl) _,
    Escaped.raw_of⟩
  rw [decode_ofTokens, foldr_tokens]

end MeetingMail
