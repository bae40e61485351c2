import MeetingMail.Email.Message
import MeetingMail.Proofs.Email.Tags

/-!
The parts of a message.

* `Message.compose_eq`: a message holds the page that the summary has under the title as it is
  given. That the title is chosen twice makes no difference.
* `Reading.HasOne` says that a document has a single element of some name, and what it shows.
* `hasOne_title` and `hasOne_h1`: the title of a page and its banner show the title of the email.
-/

namespace MeetingMail

theorem Message.compose_eq (settings : Settings) (recipients : List Text) (title : Option Text)
    (content : Text) :
    Message.compose settings recipients title content =
      ⟨recipients, settings.titleFor title, renderSummary settings title content,
        plainText (renderSummary settings title content)⟩ := by
  have hpage : renderSummary settings (some (settings.titleFor title)) content =
      renderSummary settings title content := by
    rw [renderSummary_eq, Email.ofBlocks, settings.titleFor_titleFor]
    rfl
  rw [← hpage]
  rfl

/-! ### Elements that stand once -/

/-- The name of the element that a tag opens. -/
def Tag.opened? : Tag → Option Text
  | .opening name _ => some name
  | _ => none

/-- Holds of the documents with a single element of some name, which holds a text and no tags. -/
def Reading.HasOne (r : Reading) (name content : Text) : Prop :=
  ∃ before attributes behind after,
    r.tags = before ++ (.opening name attributes, content) :: (.closing name, behind) :: after ∧
      ∀ p ∈ before ++ after, p.1.opened? ≠ some name

section Opened

variable {name : Text}

theorem opened?_ne_of_all {ps : List (Tag × Text)}
    (h : (ps.all fun p => p.1.opened? != some name) = true) :
    ∀ p ∈ ps, p.1.opened? ≠ some name := by
  simpa using h

variable (hname : name = "title".toList ∨ name = "h1".toList)
include hname

theorem opened?_ne_of_mem_shownBlocks (settings : Settings) (behind : Text) (bs : List Block) :
    ∀ p ∈ shownBlocks settings behind bs, p.1.opened? ≠ some name := by
  have hblock (b : Block) (behind : Text) :
      ∀ p ∈ b.shown settings behind, p.1.opened? ≠ some name := by
    apply opened?_ne_of_all
    rcases hname with rfl | rfl <;> rcases b with ⟨_ | _, _⟩ | _ | _ | _ | _ | _ <;> rfl
  induction bs with
  | nil =>
      intro p hp
      cases hp
  | cons b bs ih =>
      cases bs with
      | nil => exact hblock b behind
      | cons c bs => exact List.forall_mem_append.mpr ⟨hblock b ['\n'], ih⟩

theorem opened?_ne_of_mem_shownTables (width : Text) :
    ∀ p ∈ shownTables width, p.1.opened? ≠ some name := by
  apply opened?_ne_of_all
  rcases hname with rfl | rfl <;> rfl

/-- The tags of a page behind its banner. -/
theorem opened?_ne_of_mem_belowBanner (settings : Settings) (bs : List Block) :
    ∀ p ∈ shownContent settings bs ++ shownFooter settings.document.footer ++ shownEnd,
      p.1.opened? ≠ some name := by
  simp only [shownContent, List.forall_mem_append]
  refine ⟨⟨⟨⟨?_, opened?_ne_of_mem_shownBlocks hname settings _ bs⟩, ?_⟩, ?_⟩, ?_⟩
  all_goals
    apply opened?_ne_of_all
    rcases hname with rfl | rfl <;> rfl

end Opened

theorem hasOne_title (settings : Settings) (email : Email) :
    Reading.HasOne ⟨[], shownPage settings email⟩ "title".toList email.title := by
  refine ⟨(shownHead email.title).take 5, [], margin 2,
    (shownHead email.title).drop 7 ++ shownTables (Text.ofNat settings.document.width.toNat)
      ++ shownBanner email.title
      ++ (shownContent settings email.blocks ++ shownFooter settings.document.footer ++ shownEnd),
    ?_, ?_⟩
  · simp only [shownPage, List.append_assoc]
    rfl
  · have hbelow := opened?_ne_of_mem_belowBanner (.inl rfl) settings email.blocks
    have htables := opened?_ne_of_mem_shownTables (.inl rfl)
      (Text.ofNat settings.document.width.toNat)
    simp only [List.forall_mem_append] at hbelow ⊢
    exact ⟨opened?_ne_of_all rfl, ⟨⟨opened?_ne_of_all rfl, htables⟩, opened?_ne_of_all rfl⟩,
      hbelow⟩

/-- The banner cut at the element that shows the title. -/
theorem shownBanner_eq (title : Text) :
    shownBanner title = (shownBanner title).take 2
      ++ (.opening "h1".toList [("style".toList, "margin:0;font-size:18px;color:#f8fafc".toList)],
          title)
        :: (.closing "h1".toList, margin 14) :: (shownBanner title).drop 4 := rfl

theorem hasOne_h1 (settings : Settings) (email : Email) :
    Reading.HasOne ⟨[], shownPage settings email⟩ "h1".toList email.title := by
  refine ⟨shownHead email.title ++ shownTables (Text.ofNat settings.document.width.toNat)
      ++ (shownBanner email.title).take 2,
    [("style".toList, "margin:0;font-size:18px;color:#f8fafc".toList)], margin 14,
    (shownBanner email.title).drop 4
      ++ (shownContent settings email.blocks ++ shownFooter settings.document.footer ++ shownEnd),
    ?_, ?_⟩
  · conv =>
      lhs
      rw [shownPage, shownBanner_eq]
    simp only [List.append_assoc, List.cons_append]
  · have hbelow := opened?_ne_of_mem_belowBanner (.inr rfl) settings email.blocks
    have htables := opened?_ne_of_mem_shownTables (.inr rfl)
      (Text.ofNat settings.document.width.toNat)
    simp only [List.forall_mem_append] at hbelow ⊢
    exact ⟨⟨⟨opened?_ne_of_all rfl, htables⟩, opened?_ne_of_all rfl⟩, opened?_ne_of_all rfl,
      hbelow⟩

/-- The title of a page and its banner both show the title of the email, and nothing else. -/
theorem exists_scan?_renderSummary (settings : Settings) (title : Option Text) (content : Text) :
    ∃ r, scan? (renderSummary settings title content) = some r ∧
      r.decode.HasOne "title".toList (settings.titleFor title) ∧
      r.decode.HasOne "h1".toList (settings.titleFor title) := by
  refine ⟨_, scan?_renderTokens _, ?_⟩
  rw [Reading.decode_ofTokens, foldr_tokens]
  exact ⟨hasOne_title settings _, hasOne_h1 settings _⟩

end MeetingMail
