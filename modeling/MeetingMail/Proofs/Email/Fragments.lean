import MeetingMail.Proofs.Email.PlainPart
import MeetingMail.Proofs.Email.Recovery
import MeetingMail.Proofs.Summary.NormalForm

/-!
The lines of the content of an email.

* `newline_notMem_renderContent`: a block whose style and text hold no line feed takes one line.
* `newline_notMem_plain`: the texts of a summary's blocks hold no line feed, because its lines do
  not.
* `splitOn_renderContent`: so the content of a summary has one line for each of its blocks.
-/

namespace MeetingMail

/-! ### Line feeds in markup -/

theorem newline_notMem_textEntity {c : Char} (h : c ≠ '\n') : '\n' ∉ textEntity c := by
  unfold textEntity
  split
  · decide
  · decide
  · decide
  · rw [List.mem_singleton]
    exact h.symm

theorem newline_notMem_attributeEntity {c : Char} (h : c ≠ '\n') : '\n' ∉ attributeEntity c := by
  unfold attributeEntity
  split
  · decide
  · exact newline_notMem_textEntity h

theorem newline_notMem_escapeText {t : Text} (h : '\n' ∉ t) : '\n' ∉ escapeText t := by
  rw [escapeText, List.mem_flatMap]
  rintro ⟨c, hc, hmem⟩
  exact newline_notMem_textEntity (fun heq => h (heq ▸ hc)) hmem

theorem newline_notMem_escapeAttribute {t : Text} (h : '\n' ∉ t) : '\n' ∉ escapeAttribute t := by
  rw [escapeAttribute, List.mem_flatMap]
  rintro ⟨c, hc, hmem⟩
  exact newline_notMem_attributeEntity (fun heq => h (heq ▸ hc)) hmem

theorem Element.newline_notMem_name (e : Element) : '\n' ∉ e.name := by
  cases e <;> decide

theorem newline_notMem_opening (e : Element) {style : Text} (h : '\n' ∉ style) :
    '\n' ∉ (Token.opening e [styleOf style]).render := by
  have hrender : (Token.opening e [styleOf style]).render
      = '<' :: e.name ++ (" style=\"".toList ++ escapeAttribute style ++ ['"'] ++ []) ++ ['>'] :=
    rfl
  rw [hrender]
  simp only [List.mem_append, List.mem_cons, not_or]
  exact ⟨⟨⟨by decide, e.newline_notMem_name⟩,
    ⟨⟨by decide, newline_notMem_escapeAttribute h⟩, by decide⟩, by decide⟩, by decide⟩

theorem newline_notMem_closing (e : Element) : '\n' ∉ (Token.closing e).render := by
  have hrender : (Token.closing e).render = "</".toList ++ e.name ++ ['>'] := rfl
  rw [hrender]
  simp only [List.mem_append, not_or]
  exact ⟨⟨by decide, e.newline_notMem_name⟩, by decide⟩

theorem newline_notMem_styledText (e : Element) {style : Text} {t : Escaped} (hstyle : '\n' ∉ style)
    (ht : '\n' ∉ t.text) : '\n' ∉ renderTokens (styledText e style t) := by
  have hopening := newline_notMem_opening e hstyle
  have hclosing := newline_notMem_closing e
  simp only [styledText, renderTokens_cons, renderTokens_nil, List.append_nil, List.mem_append,
    not_or]
  exact ⟨hopening, ht, hclosing⟩

theorem newline_notMem_spacerStyle (height : UInt32) : '\n' ∉ spacerStyle height := by
  have hdigits : '\n' ∉ Text.ofNat height.toNat := fun hmem =>
    absurd (Text.isDigit_of_mem_ofNat hmem) (by decide)
  unfold spacerStyle
  simp only [List.mem_append, not_or]
  exact ⟨⟨by decide, hdigits⟩, by decide⟩

namespace Block

/-! ### Blocks on a line -/

/-- A block takes one line if neither its style nor its text holds a line feed. -/
theorem newline_notMem_renderContent {settings : Settings} {b : Block}
    (hstyle : '\n' ∉ b.style settings) (hplain : '\n' ∉ b.plain) :
    '\n' ∉ renderContent settings [b] := by
  rw [renderContent, contentTokens_singleton]
  cases b with
  | heading level t | paragraph t | item t => exact newline_notMem_styledText _ hstyle hplain
  | spacer =>
      simp only [tokens, renderTokens_cons, renderTokens_nil, List.append_nil, List.mem_append,
        not_or]
      exact ⟨newline_notMem_opening .div hstyle, newline_notMem_closing .div⟩
  | listOpen =>
      simp only [tokens, renderTokens_cons, renderTokens_nil, List.append_nil]
      exact newline_notMem_opening .ul hstyle
  | listClose =>
      simp only [tokens, renderTokens_cons, renderTokens_nil, List.append_nil]
      exact newline_notMem_closing .ul

/-- Blocks stand on lines of their own, whatever their styles and texts hold. -/
theorem renderContent_eq_unlines (settings : Settings) (bs : List Block) :
    renderContent settings bs = Text.unlines (bs.map fun b => renderContent settings [b]) := by
  induction bs with
  | nil => rfl
  | cons b bs ih =>
      cases bs with
      | nil => rw [List.map_singleton, Text.unlines_singleton]
      | cons c bs =>
          rw [renderContent, contentTokens_cons settings b (List.cons_ne_nil c bs),
            renderTokens_append, renderTokens_cons, ← renderContent, ih, List.map_cons (a := b),
            Text.unlines_cons (by simp)]
          rw [renderContent, contentTokens_singleton]
          rfl

/-! ### Summaries -/

/-- The text of a block comes from one line of the summary. -/
theorem newline_notMem_plain {content : Text} {b : Block} (h : b ∈ ofSummary content) :
    '\n' ∉ b.plain := by
  have hline {l : Line} (hl : b.line? = some l) : l = .blank ∨ Line.IsContent l.text :=
    (Line.wellFormed_of_mem_parse (mem_of_mem_ofLines h hl)).isContent_text
  have hescaped {t : Escaped} (ht : Line.IsContent t.raw) : '\n' ∉ t.text := by
    rw [t.text_eq_escapeText_raw]
    exact newline_notMem_escapeText ht.newline_notMem
  cases b with
  | heading level t | paragraph t | item t =>
      exact hescaped ((hline rfl).resolve_left (fun heq => by cases heq))
  | spacer | listOpen | listClose => exact List.not_mem_nil

/-- There is a block for each line of a summary, and a summary has a line. -/
theorem ofSummary_ne_nil (content : Text) : ofSummary content ≠ [] := by
  obtain ⟨l, ls, hlines⟩ := List.exists_cons_of_ne_nil (Line.parse_ne_nil content)
  refine List.ne_nil_of_mem (block_mem_ofLines (l := l) ?_)
  rw [hlines]
  exact List.mem_cons_self

end Block

/-- The style attributes that the settings hold. -/
def Styles.values (styles : Styles) : List Text :=
  [styles.h2, styles.h3, styles.p, styles.ul, styles.li]

namespace Block

theorem newline_notMem_style {settings : Settings}
    (h : ∀ style ∈ settings.styles.values, '\n' ∉ style) (b : Block) :
    '\n' ∉ b.style settings := by
  simp only [Styles.values, List.forall_mem_cons, List.not_mem_nil, false_implies, implies_true,
    and_true] at h
  obtain ⟨hh2, hh3, hp, hul, hli⟩ := h
  cases b with
  | heading level t =>
      cases level with
      | two => exact hh2
      | three => exact hh3
  | paragraph t => exact hp
  | spacer => exact newline_notMem_spacerStyle _
  | listOpen => exact hul
  | item t => exact hli
  | listClose => exact List.not_mem_nil

/-- If no style holds a line feed, the content of a summary has a line for each of its blocks, and
this line is what the block is by itself. -/
theorem splitOn_renderContent {settings : Settings}
    (h : ∀ style ∈ settings.styles.values, '\n' ∉ style) (content : Text) :
    (renderContent settings (ofSummary content)).splitOn '\n'
      = (ofSummary content).map fun b => renderContent settings [b] := by
  have hline : ∀ line ∈ (ofSummary content).map fun b => renderContent settings [b],
      '\n' ∉ line := by
    intro line hmem
    obtain ⟨b, hb, rfl⟩ := List.mem_map.mp hmem
    exact newline_notMem_renderContent (newline_notMem_style h b) (newline_notMem_plain hb)
  rw [renderContent_eq_unlines, Text.unlines,
    List.splitOn_intercalate '\n' hline (by simpa using ofSummary_ne_nil content)]

/-- A summary whose lines look like markup and end with carriage returns. -/
theorem splitOn_renderContent_returns :
    let settings : Settings := { styles := { p := "a\tb".toList } }
    let content := "\r\n* </li>\r\n<p>&#10;".toList
    (∀ style ∈ settings.styles.values, '\n' ∉ style) ∧
      ((renderContent settings (ofSummary content)).splitOn '\n').length = 5 := by
  intro settings content
  have h : ∀ style ∈ settings.styles.values, '\n' ∉ style := by decide
  refine ⟨h, ?_⟩
  rw [splitOn_renderContent h content, List.length_map]
  rfl

end Block

end MeetingMail
