import MeetingMail.Email.Page
import MeetingMail.Proofs.Markup.Plain
import MeetingMail.Text.Blank

/-!
The plain part of an email.

* `Block.plain` is what a block leaves in the plain part. Blocks without a text leave an empty
  line.
* `plainText_render`: the plain part is the title, the title again, the blocks and the footer,
  between white space that is the same in every email. Nothing but the footer comes from the
  settings.
-/

namespace MeetingMail

/-- The text that a block shows, still escaped. -/
def Block.plain : Block → Text
  | .heading _ t | .paragraph t | .item t => t.text
  | .spacer | .listOpen | .listClose => []

/-! ### The white space of the page -/

/-- What is left of the indentation in front of tags that stand one below the other. -/
def margins (widths : List Nat) : Text := widths.flatMap margin

def marginsToTitle : Text := margins [0, 2, 4, 4, 4]

def marginsToBanner : Text := margins [2, 2, 4, 6, 8, 10, 12, 14, 16]

def marginsToContent : Text := margins [14, 12, 12, 14, 16]

def marginsToFooter : Text := margins [14, 12, 12, 14, 16]

def marginsToEnd : Text := margins [14, 12, 10, 8, 6, 4, 2, 0]

theorem isBlank_of_mem_margins {widths : List Nat} {c : Char} (h : c ∈ margins widths) :
    isBlank c = true := by
  obtain ⟨width, -, hc⟩ := List.mem_flatMap.mp h
  rcases List.mem_cons.mp hc with rfl | hc
  · decide
  · rw [List.eq_of_mem_replicate hc]
    decide

/-! ### The texts of the tokens -/

@[simp] theorem Email.content_indent (width : Nat) : (indent width).content = margin width :=
  escapeText_margin width

theorem Block.flatMap_content_tokens (settings : Settings) (b : Block) :
    (b.tokens settings).flatMap Token.content = b.plain := by
  cases b with
  | heading level t | paragraph t | item t => exact List.append_nil t.text
  | spacer | listOpen | listClose => rfl

theorem Block.flatMap_content_contentTokens (settings : Settings) (bs : List Block) :
    (contentTokens settings bs).flatMap Token.content = Text.unlines (bs.map plain) := by
  induction bs with
  | nil => rfl
  | cons b bs ih =>
      cases bs with
      | nil =>
          rw [contentTokens_singleton, flatMap_content_tokens, List.map_singleton,
            Text.unlines_singleton]
      | cons c bs =>
          rw [contentTokens_cons settings b (List.cons_ne_nil c bs), List.flatMap_append,
            List.flatMap_cons, ih, flatMap_content_tokens, List.map_cons (a := b),
            Text.unlines_cons (by simp)]
          rfl

theorem Email.flatMap_content_tokens (settings : Settings) (email : Email) :
    (email.tokens settings).flatMap Token.content
      = marginsToTitle ++ escapeText email.title ++ marginsToBanner ++ escapeText email.title
        ++ marginsToContent ++ Text.unlines (email.blocks.map Block.plain) ++ marginsToFooter
        ++ escapeText settings.document.footer ++ marginsToEnd := by
  have hhead : (headTokens email.title).flatMap Token.content
      = marginsToTitle ++ escapeText email.title ++ margins [2, 2] := by
    simp [headTokens, marginsToTitle, margins]
  have hcolumn : (columnTokens settings.document.width).flatMap Token.content
      = margins [4, 6, 8, 10, 12] := by
    simp [columnTokens, margins]
  have hbanner : (bannerTokens email.title).flatMap Token.content
      = margins [14, 16] ++ escapeText email.title ++ margins [14, 12, 12] := by
    simp [bannerTokens, margins]
  have hcontent (content : List Token) : (contentRowTokens content).flatMap Token.content
      = margins [14, 16] ++ content.flatMap Token.content ++ margins [14, 12, 12] := by
    simp [contentRowTokens, margins]
  have hfooter : (footerTokens settings.document.footer).flatMap Token.content
      = margins [14, 16] ++ escapeText settings.document.footer ++ margins [14, 12, 10] := by
    simp [footerTokens, margins]
  have hend : endTokens.flatMap Token.content = margins [8, 6, 4, 2, 0] := by
    simp [endTokens, margins]
  simp only [tokens, List.flatMap_append, hhead, hcolumn, hbanner, hcontent, hfooter, hend,
    Block.flatMap_content_contentTokens]
  simp [marginsToBanner, marginsToContent, marginsToFooter, marginsToEnd, margins]

/-- The plain part of an email is its texts between five pieces of white space. It has no angle
bracket, and no setting but the footer has an influence on it. -/
theorem plainText_render (settings settings' : Settings) (email : Email) :
    plainText (email.render settings)
        = marginsToTitle ++ escapeText email.title ++ marginsToBanner ++ escapeText email.title
          ++ marginsToContent ++ Text.unlines (email.blocks.map Block.plain) ++ marginsToFooter
          ++ escapeText settings.document.footer ++ marginsToEnd ∧
      (∀ t ∈ [marginsToTitle, marginsToBanner, marginsToContent, marginsToFooter, marginsToEnd],
        ∀ c ∈ t, isBlank c = true) ∧
      '<' ∉ plainText (email.render settings) ∧ '>' ∉ plainText (email.render settings) ∧
      (settings.document.footer = settings'.document.footer →
        plainText (email.render settings) = plainText (email.render settings')) := by
  have hplain (s : Settings) : plainText (email.render s)
      = (email.tokens s).flatMap Token.content := plainText_renderTokens (email.tokens s)
  rw [hplain settings, hplain settings']
  refine ⟨email.flatMap_content_tokens settings, ?_, bracket_notMem_flatMap_content (.inl rfl) _,
    bracket_notMem_flatMap_content (.inr rfl) _, fun hfooter => ?_⟩
  · intro t ht c hc
    have hmargins : ∃ widths, t = margins widths := by
      simp only [List.mem_cons, List.not_mem_nil, or_false] at ht
      rcases ht with rfl | rfl | rfl | rfl | rfl <;> exact ⟨_, rfl⟩
    obtain ⟨widths, rfl⟩ := hmargins
    exact isBlank_of_mem_margins hc
  · rw [email.flatMap_content_tokens settings, email.flatMap_content_tokens settings', hfooter]

/-- A heading and an item in a narrow column with a style of its own, against the standard. -/
theorem plainText_render_narrow :
    let narrow : Settings := { document := { width := 480 }, styles := { h2 := "a>b".toList } }
    let email : Email := ⟨"Notes".toList,
      [.heading .two (.of "R&D".toList), .listOpen, .item (.of "a < b".toList), .listClose]⟩
    narrow.document.footer = Settings.standard.document.footer ∧
      plainText (email.render narrow) = plainText (email.render .standard) :=
  ⟨rfl, (plainText_render _ .standard _).2.2.2.2 rfl⟩

end MeetingMail
