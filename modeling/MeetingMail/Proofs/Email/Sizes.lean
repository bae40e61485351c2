import MeetingMail.Proofs.Email.Tags

/-!
The sizes that the page of an email shows.

* `Reading.opened` lists the attributes of the elements of a name, as a document is read.
* `opened_renderSummary`: a page has two tables, and the inner one shows the width of the column;
  and each blank line of the summary has a gap, which shows its height.
-/

namespace MeetingMail

/-- The attributes of an element of some name, if a tag opens one. -/
def Tag.attributesOf? (name : Text) : Tag → Option (List (Text × Text))
  | .opening n attributes => if n = name then some attributes else none
  | _ => none

/-- The attributes of all elements of some name, in order. -/
def Reading.opened (r : Reading) (name : Text) : List (List (Text × Text)) :=
  r.tags.filterMap fun p => p.1.attributesOf? name

/-- The attributes that the tables of a page have. -/
def tableShown (width style : Text) : List (Text × Text) :=
  [("role".toList, "presentation".toList), ("cellpadding".toList, "0".toList),
    ("cellspacing".toList, "0".toList), ("width".toList, width), ("style".toList, style)]

/-! ### Elements of blocks -/

theorem Block.filterMap_shown (name : Text) (settings : Settings) (behind behind' : Text)
    (b : Block) :
    (b.shown settings behind).filterMap (fun p => p.1.attributesOf? name)
      = (b.shown settings behind').filterMap fun p => p.1.attributesOf? name := by
  rcases b with ⟨_ | _, _⟩ | _ | _ | _ | _ | _ <;> rfl

theorem filterMap_shownBlocks (name : Text) (settings : Settings) (behind : Text)
    (bs : List Block) :
    (shownBlocks settings behind bs).filterMap (fun p => p.1.attributesOf? name)
      = bs.flatMap fun b => (b.shown settings []).filterMap fun p => p.1.attributesOf? name := by
  induction bs with
  | nil => rfl
  | cons b bs ih =>
      rw [List.flatMap_cons, ← ih, b.filterMap_shown name settings [] behind]
      cases bs with
      | nil => simp [shownBlocks]
      | cons c bs =>
          rw [b.filterMap_shown name settings behind ['\n'], ← List.filterMap_append]
          rfl

theorem Block.table_shown (settings : Settings) (b : Block) :
    (b.shown settings []).filterMap (fun p => p.1.attributesOf? "table".toList) = [] := by
  rcases b with ⟨_ | _, _⟩ | _ | _ | _ | _ | _ <;> rfl

theorem Block.div_shown (settings : Settings) (b : Block) :
    (b.shown settings []).filterMap (fun p => p.1.attributesOf? "div".toList)
      = if b = .spacer then
          [[("style".toList, spacerStyle settings.document.spacerHeight)]] else [] := by
  rcases b with ⟨_ | _, _⟩ | _ | _ | _ | _ | _ <;> rfl

/-! ### Elements of pages -/

theorem table_shownPage (settings : Settings) (email : Email) :
    (shownPage settings email).filterMap (fun p => p.1.attributesOf? "table".toList)
      = [tableShown "100%".toList "background:#f3f4f6;padding:24px 0".toList,
          tableShown (Text.ofNat settings.document.width.toNat)
            (Email.columnStyle settings.document.width)] := by
  have hblocks : (shownBlocks settings (margin 14) email.blocks).filterMap
      (fun p => p.1.attributesOf? "table".toList) = [] := by
    rw [filterMap_shownBlocks, List.flatMap_eq_nil_iff]
    exact fun b _ => b.table_shown settings
  simp only [shownPage, shownContent, List.filterMap_append, hblocks]
  rfl

theorem div_shownPage (settings : Settings) (email : Email) :
    (shownPage settings email).filterMap (fun p => p.1.attributesOf? "div".toList)
      = List.replicate (email.blocks.count .spacer)
          [("style".toList, spacerStyle settings.document.spacerHeight)] := by
  have hblocks : (shownBlocks settings (margin 14) email.blocks).filterMap
      (fun p => p.1.attributesOf? "div".toList)
      = List.replicate (email.blocks.count .spacer)
          [("style".toList, spacerStyle settings.document.spacerHeight)] := by
    rw [filterMap_shownBlocks]
    induction email.blocks with
    | nil => rfl
    | cons b bs ih =>
        rw [List.flatMap_cons, ih, b.div_shown, List.count_cons]
        by_cases hb : b = .spacer
        · rw [if_pos hb, if_pos (beq_iff_eq.mpr hb), List.replicate_succ]
          rfl
        · rw [if_neg hb, if_neg (by simpa using hb)]
          rfl
  simp only [shownPage, shownContent, List.filterMap_append, hblocks]
  change [] ++ [] ++ [] ++ ([] ++ _ ++ []) ++ [] ++ [] = _
  simp only [List.nil_append, List.append_nil]

/-- The page of a summary shows the width of the column twice, both times in the inner one of its
two tables, and the height of a gap in all gaps. -/
theorem opened_renderSummary (settings : Settings) (title : Option Text) (content : Text) :
    ∃ r, scan? (renderSummary settings title content) = some r ∧
      r.decode.opened "table".toList
        = [tableShown "100%".toList "background:#f3f4f6;padding:24px 0".toList,
            tableShown (Text.ofNat settings.document.width.toNat)
              (Email.columnStyle settings.document.width)] ∧
      r.decode.opened "div".toList
        = List.replicate ((Block.ofSummary content).count .spacer)
            [("style".toList, spacerStyle settings.document.spacerHeight)] := by
  refine ⟨_, scan?_renderTokens _, ?_⟩
  rw [Reading.decode_ofTokens, foldr_tokens]
  exact ⟨table_shownPage settings _, div_shownPage settings _⟩

end MeetingMail
