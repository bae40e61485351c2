import MeetingMail.Email.Page
import MeetingMail.Proofs.Markup.Tree
import MeetingMail.Proofs.Summary.Sections

/-!
The page of an email as a tree.

* `Section.node` is the node of one section of the content. A list holds a node for each item.
* `page` is the tree around the sections.
* `ofTokens_tokens`: the tokens of an email are read as the tags of its page.
-/

namespace MeetingMail

/-! ### Sections as nodes -/

def Node.ofElement (e : Element) (as : List Attribute) (text : Text) (children : List Node)
    (tail : Text) : Node :=
  .element e.name (as.map Attribute.spelled) text children tail

/-- An element with a style that holds nothing but text. -/
def styledNode (e : Element) (style : Text) (t : Escaped) (tail : Text) : Node :=
  .ofElement e [styleOf style] t.text [] tail

def Section.node (settings : Settings) (tail : Text) : Section → Node
  | .heading level t => styledNode level.element (settings.styles.heading level) t tail
  | .paragraph t => styledNode .p settings.styles.p t tail
  | .spacer =>
      .ofElement .div [styleOf (spacerStyle settings.document.spacerHeight)] [] [] tail
  | .list first others =>
      .ofElement .ul [styleOf settings.styles.ul] ['\n']
        ((first :: others).map (styledNode .li settings.styles.li · ['\n'])) tail

/-- The nodes of sections, with a line feed between each two of them. -/
def sectionNodes (settings : Settings) (tail : Text) : List Section → List Node
  | [] => []
  | [c] => [c.node settings tail]
  | c :: cs => c.node settings ['\n'] :: sectionNodes settings tail cs

open Reading

theorem Section.blocks_ne_nil (c : Section) : c.blocks ≠ [] := by
  cases c <;> simp [blocks]

theorem Block.separator_onto (r : Reading) : Block.separator.onto r = addText ['\n'] r := rfl

theorem foldr_onto_styledText (e : Element) (style : Text) (t : Escaped) (r : Reading) :
    (styledText e style t).foldr Token.onto r
      = ⟨[], (styledNode e style t r.lead).tags ++ r.tags⟩ := by
  change addTag _ (addText t.text (addTag _ r)) = _
  rw [addText_addTag, styledNode, Node.ofElement, Node.tags]
  rfl

/-- The items of a list, with the tag that ends it. -/
theorem foldr_onto_items (settings : Settings) (items : List Escaped) (r : Reading) :
    (Block.contentTokens settings (items.map .item ++ [.listClose])).foldr Token.onto r
      = ⟨[], (items.map (styledNode .li settings.styles.li · ['\n'])).flatMap Node.tags
          ++ (.closing Element.ul.name, r.lead) :: r.tags⟩ := by
  induction items with
  | nil =>
      rw [List.map_nil, List.nil_append, Block.contentTokens_singleton]
      rfl
  | cons e items ih =>
      rw [List.map_cons, List.cons_append, Block.contentTokens_cons settings _ (by simp),
        List.foldr_append, List.foldr_cons, ih, Block.separator_onto, addText_mk]
      change (styledText .li settings.styles.li e).foldr Token.onto _ = _
      rw [foldr_onto_styledText]
      simp

theorem foldr_onto_section (settings : Settings) (c : Section) (r : Reading) :
    (Block.contentTokens settings c.blocks).foldr Token.onto r
      = ⟨[], (c.node settings r.lead).tags ++ r.tags⟩ := by
  cases c with
  | heading level t =>
      rw [Section.blocks, Block.contentTokens_singleton]
      exact foldr_onto_styledText level.element (settings.styles.heading level) t r
  | paragraph t =>
      rw [Section.blocks, Block.contentTokens_singleton]
      exact foldr_onto_styledText .p settings.styles.p t r
  | spacer =>
      rw [Section.blocks, Block.contentTokens_singleton, Section.node, Node.ofElement, Node.tags]
      rfl
  | list first others =>
      rw [Section.blocks, List.cons_append, Block.contentTokens_cons settings _ (by simp),
        List.foldr_append, List.foldr_cons, foldr_onto_items, Block.separator_onto, addText_mk,
        Section.node, Node.ofElement, Node.tags]
      simp [Block.tokens, Token.onto, addTag]

/-- Sections one after the other, the last one in front of what is already read. -/
theorem foldr_onto_sections (settings : Settings) (c : Section) (cs : List Section) (r : Reading) :
    (Block.contentTokens settings ((c :: cs).flatMap Section.blocks)).foldr Token.onto r
      = ⟨[], (sectionNodes settings r.lead (c :: cs)).flatMap Node.tags ++ r.tags⟩ := by
  induction cs generalizing c with
  | nil =>
      rw [List.flatMap_singleton, foldr_onto_section]
      simp [sectionNodes]
  | cons d cs ih =>
      have hrest : (d :: cs).flatMap Section.blocks ≠ [] := by
        rw [List.flatMap_cons]
        exact List.append_ne_nil_of_left_ne_nil d.blocks_ne_nil _
      rw [List.flatMap_cons, Block.contentTokens_append settings c.blocks_ne_nil hrest,
        List.foldr_append, List.foldr_cons, ih, Block.separator_onto, addText_mk,
        foldr_onto_section]
      simp [sectionNodes]

/-! ### The page as a tree -/

def headNode (title : Text) : Node :=
  .ofElement .head [] (margin 4)
    [.single Element.metadata.name ([.of .charset "UTF-8"].map Attribute.spelled) (margin 4),
      .single Element.metadata.name
        ([.of .name "viewport", .of .content "width=device-width,initial-scale=1"].map
          Attribute.spelled) (margin 4),
      .ofElement .title [] (escapeText title) [] (margin 2)]
    (margin 2)

def bannerRow (title : Text) : Node :=
  .ofElement .tr [] (margin 14)
    [.ofElement .td [.of .style "padding:16px 20px;background:#0f172a"] (margin 16)
      [.ofElement .h1 [.of .style "margin:0;font-size:18px;color:#f8fafc"] (escapeText title) []
        (margin 14)]
      (margin 12)]
    (margin 12)

def contentCell (sections : List Node) : Node :=
  .ofElement .td [.of .style "padding:18px 20px"] (margin 16) sections (margin 12)

def contentRow (sections : List Node) : Node :=
  .ofElement .tr [] (margin 14) [contentCell sections] (margin 12)

def footerRow (footer : Text) : Node :=
  .ofElement .tr [] (margin 14)
    [.ofElement .td [.of .style
        "padding:14px 20px;background:#f8fafc;color:#475569;font-size:12px"]
      (margin 16 ++ escapeText footer ++ margin 14) [] (margin 12)]
    (margin 10)

/-- The table whose rows are the banner, the content and the footer. -/
def columnTable (settings : Settings) (title : Text) (sections : List Node) : Node :=
  .ofElement .table
    (Email.tableAttributes (Text.ofNat settings.document.width.toNat)
      (Email.columnStyle settings.document.width)) (margin 12)
    [bannerRow title, contentRow sections, footerRow settings.document.footer]
    (margin 8)

/-- The table that centres the column of the page. -/
def centreTable (settings : Settings) (title : Text) (sections : List Node) : Node :=
  .ofElement .table
    (Email.tableAttributes "100%".toList "background:#f3f4f6;padding:24px 0".toList) (margin 6)
    [.ofElement .tr [] (margin 8)
      [.ofElement .td [.of .align "center"] (margin 10)
        [columnTable settings title sections] (margin 6)]
      (margin 4)]
    (margin 2)

def bodyNode (settings : Settings) (title : Text) (sections : List Node) : Node :=
  .ofElement .body [.of .style "margin:0;padding:0;background:#f3f4f6"] (margin 4)
    [centreTable settings title sections] (margin 0)

def page (settings : Settings) (title : Text) (sections : List Node) : List Node :=
  [.declaration "DOCTYPE html".toList (margin 0),
    .ofElement .html [] (margin 2) [headNode title, bodyNode settings title sections] []]

theorem Email.indent_onto (width : Nat) (r : Reading) :
    (indent width).onto r = addText (margin width) r := by
  change addText (escapeText (margin width)) r = _
  rw [escapeText_margin]

section Rows

variable (tags : List (Tag × Text))

theorem foldr_onto_bannerTokens (title : Text) :
    (Email.bannerTokens title).foldr Token.onto ⟨[], tags⟩
      = ⟨[], (bannerRow title).tags ++ tags⟩ := by
  simp only [Email.bannerTokens, List.foldr, Email.indent_onto]
  simp only [bannerRow, Node.ofElement, Node.tags, List.flatMap_singleton]
  simp [Token.onto, addTag]

theorem foldr_onto_contentRowTokens (settings : Settings) (c : Section) (cs : List Section) :
    (Email.contentRowTokens (Block.contentTokens settings
        ((c :: cs).flatMap Section.blocks))).foldr Token.onto ⟨[], tags⟩
      = ⟨[], (contentRow (sectionNodes settings (margin 14) (c :: cs))).tags ++ tags⟩ := by
  simp only [Email.contentRowTokens, List.foldr_append, List.foldr, Email.indent_onto,
    foldr_onto_sections]
  simp only [contentRow, contentCell, Node.ofElement, Node.tags, List.flatMap_singleton]
  simp [Token.onto, addTag]

theorem foldr_onto_footerTokens (footer : Text) :
    (Email.footerTokens footer).foldr Token.onto ⟨[], tags⟩
      = ⟨[], (footerRow footer).tags ++ tags⟩ := by
  simp only [Email.footerTokens, List.foldr, Email.indent_onto]
  simp only [footerRow, Node.ofElement, Node.tags, List.flatMap_singleton]
  simp [Token.onto, addTag]

end Rows

/-- The tokens of an email with some content are read as the tags of its page. -/
theorem ofTokens_tokens (settings : Settings) (title : Text) (c : Section) (cs : List Section) :
    Reading.ofTokens (Email.tokens settings ⟨title, (c :: cs).flatMap Section.blocks⟩)
      = ⟨[], (page settings title (sectionNodes settings (margin 14) (c :: cs))).flatMap
          Node.tags⟩ := by
  simp only [Reading.ofTokens, Email.tokens, List.foldr_append]
  have hend : Email.endTokens.foldr Token.onto ⟨[], []⟩
      = ⟨[], [(.closing Element.table.name, margin 8), (.closing Element.td.name, margin 6),
        (.closing Element.tr.name, margin 4), (.closing Element.table.name, margin 2),
        (.closing Element.body.name, margin 0), (.closing Element.html.name, [])]⟩ := by
    simp only [Email.endTokens, List.foldr, Email.indent_onto]
    simp [Token.onto, addTag]
  rw [hend, foldr_onto_footerTokens, foldr_onto_contentRowTokens, foldr_onto_bannerTokens]
  simp only [Email.headTokens, Email.columnTokens, List.foldr, Email.indent_onto]
  simp only [page, headNode, bodyNode, centreTable, columnTable, Node.ofElement, Node.tags,
    List.flatMap_cons, List.flatMap_nil]
  simp [Token.onto, addTag]

end MeetingMail
