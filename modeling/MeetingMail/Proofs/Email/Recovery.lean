import MeetingMail.Proofs.Email.Tags
import MeetingMail.Proofs.Summary.Sections

/-!
What can be recovered from the page of an email.

* `Block.style` is all that a block takes from the settings, and `Settings.AgreeOn` says the same
  of lines: settings agree on lines if they agree on each value that one of the lines shows.
* `render_eq_iff`: a page determines the title, the blocks, the footer, the width and the styles of
  its blocks, and nothing else has an influence on it.
* `renderSummary_eq_iff`: the same of the page of a summary, in terms of its lines.
-/

namespace MeetingMail

/-! ### What blocks take from the settings -/

/-- The style of a block. The end of a list has none. -/
def Block.style (settings : Settings) : Block → Text
  | .heading level _ => settings.styles.heading level
  | .paragraph _ => settings.styles.p
  | .spacer => spacerStyle settings.document.spacerHeight
  | .listOpen => settings.styles.ul
  | .item _ => settings.styles.li
  | .listClose => []

/-- Settings that agree on all that some lines show of them. -/
structure Settings.AgreeOn (ls : List Line) (s s' : Settings) : Prop where
  spacerHeight : .blank ∈ ls → s.document.spacerHeight = s'.document.spacerHeight
  h2 : (∃ t, .heading .two t ∈ ls) → s.styles.h2 = s'.styles.h2
  h3 : (∃ t, .heading .three t ∈ ls) → s.styles.h3 = s'.styles.h3
  p : (∃ t, .paragraph t ∈ ls) → s.styles.p = s'.styles.p
  ul : (∃ t, .bullet t ∈ ls) → s.styles.ul = s'.styles.ul
  li : (∃ t, .bullet t ∈ ls) → s.styles.li = s'.styles.li

theorem width_of_ofNat_eq {w w' : UInt32} (h : Text.ofNat w.toNat = Text.ofNat w'.toNat) :
    w = w' := UInt32.toNat_inj.mp (Text.ofNat_injective h)

theorem spacerStyle_injective {n n' : UInt32} (h : spacerStyle n = spacerStyle n') : n = n' := by
  unfold spacerStyle at h
  exact width_of_ofNat_eq (List.append_cancel_left (List.append_cancel_right h))

/-! ### Blocks from their tags -/

/-- The block that tags show first, with its style, the text behind it and the tags after it. -/
def readBlock? : List (Tag × Text) → Option (Block × Text × Text × List (Tag × Text))
  | (.opening name [(_, style)], content) :: rest =>
      match Element.ofName? name, rest with
      | some .ul, rest => some (.listOpen, style, content, rest)
      | some .h2, (_, behind) :: rest => some (.heading .two (.of content), style, behind, rest)
      | some .h3, (_, behind) :: rest => some (.heading .three (.of content), style, behind, rest)
      | some .p, (_, behind) :: rest => some (.paragraph (.of content), style, behind, rest)
      | some .div, (_, behind) :: rest => some (.spacer, style, behind, rest)
      | some .li, (_, behind) :: rest => some (.item (.of content), style, behind, rest)
      | _, _ => none
  | (.closing _, behind) :: rest => some (.listClose, [], behind, rest)
  | _ => none

theorem readBlock?_shown_append (s : Settings) (t : Text) (b : Block) (r : List (Tag × Text)) :
    readBlock? (b.shown s t ++ r) = some (b, b.style s, t, r) := by
  rcases b with ⟨_ | _, e⟩ | e | _ | _ | e | _
  · change some (Block.heading .two (.of e.raw), _) = _
    rw [Escaped.of_raw]
    rfl
  · change some (Block.heading .three (.of e.raw), _) = _
    rw [Escaped.of_raw]
    rfl
  · change some (Block.paragraph (.of e.raw), _) = _
    rw [Escaped.of_raw]
    rfl
  · rfl
  · rfl
  · change some (Block.item (.of e.raw), _) = _
    rw [Escaped.of_raw]
    rfl
  · rfl

section Shown

variable {s s' : Settings} {t t' : Text}

theorem Block.shown_append_inj {b b' : Block} {r r' : List (Tag × Text)}
    (h : b.shown s t ++ r = b'.shown s' t' ++ r') :
    b = b' ∧ b.style s = b'.style s' ∧ r = r' := by
  have hread := congrArg readBlock? h
  rw [readBlock?_shown_append, readBlock?_shown_append] at hread
  simp only [Option.some.injEq, Prod.mk.injEq] at hread
  obtain ⟨hblock, hstyle, -, hrest⟩ := hread
  exact ⟨hblock, hstyle, hrest⟩

theorem shownBlocks_cons (s : Settings) (t : Text) (b : Block) (bs : List Block) :
    shownBlocks s t (b :: bs) =
      b.shown s (if bs = [] then t else ['\n']) ++ shownBlocks s t bs := by
  cases bs with
  | nil => simp [shownBlocks]
  | cons c bs => simp [shownBlocks]

/-- What blocks show determines them and their styles. -/
theorem shownBlocks_inj {bs bs' : List Block} (h : shownBlocks s t bs = shownBlocks s' t' bs') :
    bs = bs' ∧ ∀ b ∈ bs, b.style s = b.style s' := by
  induction bs generalizing bs' with
  | nil =>
      cases bs' with
      | nil => exact ⟨rfl, fun b hb => absurd hb List.not_mem_nil⟩
      | cons b' bs' =>
          have hread := congrArg readBlock? h
          rw [shownBlocks_cons, readBlock?_shown_append] at hread
          cases hread
  | cons b bs ih =>
      cases bs' with
      | nil =>
          have hread := congrArg readBlock? h
          rw [shownBlocks_cons, readBlock?_shown_append] at hread
          cases hread
      | cons b' bs' =>
          rw [shownBlocks_cons, shownBlocks_cons] at h
          obtain ⟨rfl, hstyle, hrest⟩ := Block.shown_append_inj h
          obtain ⟨rfl, hstyles⟩ := ih hrest
          refine ⟨rfl, fun c hc => ?_⟩
          rcases List.mem_cons.mp hc with rfl | hc
          · exact hstyle
          · exact hstyles c hc

end Shown

/-! ### The page of an email -/

section Pages

variable {s s' : Settings} {email email' : Email}

/-- Pages that are the same show the same. -/
theorem shownPage_eq_of_render_eq (h : email.render s = email'.render s') :
    shownPage s email = shownPage s' email' := by
  have hread := congrArg scan? h
  rw [Email.render, Email.render, scan?_renderTokens, scan?_renderTokens,
    Option.some_inj] at hread
  have hdecode := congrArg Reading.decode hread
  rw [Reading.decode_ofTokens, Reading.decode_ofTokens, foldr_tokens, foldr_tokens] at hdecode
  exact congrArg Reading.tags hdecode

theorem shownHead_injective {title title' : Text} (h : shownHead title = shownHead title') :
    title = title' := by
  simp only [shownHead, List.cons.injEq, Prod.mk.injEq] at h
  exact h.2.2.2.2.2.1.2

theorem shownTables_injective {w w' : UInt32}
    (h : shownTables (Text.ofNat w.toNat) = shownTables (Text.ofNat w'.toNat)) : w = w' := by
  simp only [shownTables, List.cons.injEq, Prod.mk.injEq] at h
  have htable := h.2.2.2.2.1.1
  simp only [startTag, Tag.opening.injEq, List.map_cons, List.cons.injEq, Prod.mk.injEq] at htable
  exact width_of_ofNat_eq htable.2.2.2.2.1.2

theorem shownFooter_injective {footer footer' : Text}
    (h : shownFooter footer = shownFooter footer') : footer = footer' := by
  simp only [shownFooter, List.cons.injEq, Prod.mk.injEq] at h
  exact List.append_cancel_left (List.append_cancel_right h.2.1.2)

theorem shownContent_inj {bs bs' : List Block} (h : shownContent s bs = shownContent s' bs') :
    bs = bs' ∧ ∀ b ∈ bs, b.style s = b.style s' := by
  obtain ⟨hinner, -⟩ := List.append_inj' h rfl
  obtain ⟨-, hblocks⟩ := List.append_inj hinner rfl
  exact shownBlocks_inj hblocks

theorem shownPage_inj (h : shownPage s email = shownPage s' email') :
    email.title = email'.title ∧ email.blocks = email'.blocks ∧
      s.document.footer = s'.document.footer ∧ s.document.width = s'.document.width ∧
      ∀ b ∈ email.blocks, b.style s = b.style s' := by
  obtain ⟨htoFooter, -⟩ := List.append_inj' h rfl
  obtain ⟨htoContent, hfooter⟩ := List.append_inj' htoFooter rfl
  obtain ⟨htoBanner, hcontent⟩ := List.append_inj htoContent rfl
  obtain ⟨htoTables, -⟩ := List.append_inj htoBanner rfl
  obtain ⟨hhead, htables⟩ := List.append_inj htoTables rfl
  obtain ⟨hblocks, hstyles⟩ := shownContent_inj hcontent
  exact ⟨shownHead_injective hhead, hblocks, shownFooter_injective hfooter,
    shownTables_injective htables, hstyles⟩

/-! From the parts to the page -/

theorem Block.tokens_congr {b : Block} (h : b.style s = b.style s') : b.tokens s = b.tokens s' := by
  cases b with
  | heading level e => exact congrArg (styledText level.element · e) h
  | paragraph e => exact congrArg (styledText .p · e) h
  | item e => exact congrArg (styledText .li · e) h
  | spacer => exact congrArg (fun v => [Token.opening .div [styleOf v], .closing .div]) h
  | listOpen => exact congrArg (fun v => [Token.opening .ul [styleOf v]]) h
  | listClose => rfl

theorem Block.contentTokens_congr {bs : List Block} (h : ∀ b ∈ bs, b.style s = b.style s') :
    contentTokens s bs = contentTokens s' bs := by
  have htokens : bs.map (tokens s) = bs.map (tokens s') :=
    List.map_congr_left fun b hb => tokens_congr (h b hb)
  rw [contentTokens, contentTokens, htokens]

/-- A page determines its title, its blocks, its footer, its width and the styles of the blocks,
and is determined by them. -/
theorem render_eq_iff :
    email.render s = email'.render s' ↔
      email.title = email'.title ∧ email.blocks = email'.blocks ∧
        s.document.footer = s'.document.footer ∧ s.document.width = s'.document.width ∧
        ∀ b ∈ email.blocks, b.style s = b.style s' := by
  constructor
  · intro h
    exact shownPage_inj (shownPage_eq_of_render_eq h)
  · rintro ⟨htitle, hblocks, hfooter, hwidth, hstyles⟩
    rw [Email.render, Email.render, Email.tokens, Email.tokens, ← htitle, ← hblocks, ← hfooter,
      ← hwidth, Block.contentTokens_congr hstyles]

end Pages

/-! ### The page of a summary -/

namespace Block

theorem ofLines_injective {ls ls' : List Line} (h : ofLines ls = ofLines ls') : ls = ls' := by
  rw [← ListState.filterMap_line?_blocks .outside ls,
    ← ListState.filterMap_line?_blocks .outside ls']
  exact congrArg (List.filterMap line?) h

theorem block_mem_ofLines {l : Line} {ls : List Line} (h : l ∈ ls) : l.block ∈ ofLines ls := by
  have hmem : l.block ∈ (ofLines ls).filter (!·.isWrapper) := by
    rw [ofLines, ListState.filter_blocks]
    exact List.mem_map_of_mem h
  exact (List.mem_filter.mp hmem).1

theorem mem_of_mem_ofLines {b : Block} {l : Line} {ls : List Line} (h : b ∈ ofLines ls)
    (hl : b.line? = some l) : l ∈ ls := by
  rw [← ListState.filterMap_line?_blocks .outside ls]
  exact List.mem_filterMap.mpr ⟨b, h, hl⟩

/-- A list only opens where there is a bullet. -/
theorem listOpen_mem_blocks {s : ListState} {ls : List Line} (h : listOpen ∈ s.blocks ls) :
    ∃ t, .bullet t ∈ ls := by
  induction ls generalizing s with
  | nil => cases s <;> simp [ListState.closing] at h
  | cons l ls ih =>
      rw [ListState.blocks_cons, List.mem_append, List.mem_cons] at h
      rcases h with hbefore | hblock | hrest
      · cases l with
        | bullet t => exact ⟨t, List.mem_cons_self⟩
        | blank | heading _ _ | paragraph _ =>
            cases s <;> simp [ListState.before, ListState.closing] at hbefore
      · cases l <;> cases hblock
      · obtain ⟨t, ht⟩ := ih hrest
        exact ⟨t, List.mem_cons_of_mem l ht⟩

theorem listOpen_mem_ofLines {t : Text} {ls : List Line} (h : .bullet t ∈ ls) :
    listOpen ∈ ofLines ls := by
  induction ls with
  | nil => exact absurd h List.not_mem_nil
  | cons l ls ih =>
      rw [ofLines, ListState.blocks_cons]
      cases l with
      | bullet t' => exact List.mem_append_left _ List.mem_cons_self
      | blank | heading _ _ | paragraph _ =>
          rcases List.mem_cons.mp h with heq | h
          · cases heq
          · exact List.mem_append_right _ (List.mem_cons_of_mem _ (ih h))

end Block

/-- Settings agree on the styles of all blocks exactly if they agree on the lines. -/
theorem forall_style_eq_iff {s s' : Settings} {ls : List Line} :
    (∀ b ∈ Block.ofLines ls, b.style s = b.style s') ↔ s.AgreeOn ls s' := by
  constructor
  · intro h
    exact
      { spacerHeight := fun hblank =>
          spacerStyle_injective (h .spacer (Block.block_mem_ofLines hblank))
        h2 := fun ⟨_, ht⟩ => h _ (Block.block_mem_ofLines ht)
        h3 := fun ⟨_, ht⟩ => h _ (Block.block_mem_ofLines ht)
        p := fun ⟨_, ht⟩ => h _ (Block.block_mem_ofLines ht)
        ul := fun ⟨_, ht⟩ => h .listOpen (Block.listOpen_mem_ofLines ht)
        li := fun ⟨_, ht⟩ => h _ (Block.block_mem_ofLines ht) }
  · intro h b hb
    cases b with
    | listOpen => exact h.ul (Block.listOpen_mem_blocks hb)
    | listClose => rfl
    | spacer => exact congrArg spacerStyle (h.spacerHeight (Block.mem_of_mem_ofLines hb rfl))
    | paragraph e => exact h.p ⟨e.raw, Block.mem_of_mem_ofLines hb rfl⟩
    | item e => exact h.li ⟨e.raw, Block.mem_of_mem_ofLines hb rfl⟩
    | heading level e =>
        have hmem : Line.heading level e.raw ∈ ls := Block.mem_of_mem_ofLines hb rfl
        cases level with
        | two => exact h.h2 ⟨e.raw, hmem⟩
        | three => exact h.h3 ⟨e.raw, hmem⟩

/-- The pages of two summaries are the same exactly if the summaries have the same lines, the
titles, footers and widths are the same and the settings agree on all that the lines show. -/
theorem renderSummary_eq_iff (s s' : Settings) (title title' : Option Text)
    (content content' : Text) :
    renderSummary s title content = renderSummary s' title' content' ↔
      Line.parse content = Line.parse content' ∧ s.titleFor title = s'.titleFor title' ∧
        s.document.footer = s'.document.footer ∧ s.document.width = s'.document.width ∧
        s.AgreeOn (Line.parse content) s' := by
  rw [renderSummary_eq, renderSummary_eq, render_eq_iff]
  constructor
  · rintro ⟨htitle, hblocks, hfooter, hwidth, hstyles⟩
    exact ⟨Block.ofLines_injective hblocks, htitle, hfooter, hwidth,
      forall_style_eq_iff.mp hstyles⟩
  · rintro ⟨hlines, htitle, hfooter, hwidth, hagree⟩
    exact ⟨htitle, congrArg Block.ofLines hlines, hfooter, hwidth,
      forall_style_eq_iff.mpr hagree⟩

end MeetingMail
