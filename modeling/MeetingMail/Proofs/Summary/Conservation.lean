import MeetingMail.Proofs.Email.PlainPart
import MeetingMail.Proofs.Summary.Padding
import MeetingMail.Proofs.Summary.Sections

/-!
What the blocks of a summary keep of it.

* `Line.Tidied` says what is left of a line without the blanks at its ends and behind its marker,
  and `Block.write` is a block as a line of plain text.
* `tidied_iff`: this is what the line is read as, written again.
* `ofSummary_conserves`: the blocks show the lines of a summary one by one, in their order, and all
  characters that are not blank are kept.
-/

namespace MeetingMail

/-- The characters of lines that are not blank are those of the text that joins the lines. -/
theorem Text.filter_unlines (ls : List Text) :
    (unlines ls).filter (!isBlank ·) = ls.flatMap (·.filter (!isBlank ·)) := by
  induction ls with
  | nil => rfl
  | cons l ls ih =>
      cases ls with
      | nil => simp
      | cons l' ls =>
          rw [unlines_cons (List.cons_ne_nil l' ls), List.filter_append,
            List.filter_cons_of_neg (by decide), ih]
          rfl

namespace Line

/-! ### What is left of a line -/

/-- A line, and what is left of it without the blanks at its two ends and those behind the space of
its marker. -/
inductive Tidied : Text → Text → Prop where
  | unmarked (left t right : Text) : left.AllBlank → right.AllBlank → t.IsTrimmed →
      (∀ marker ∈ markers, ¬ marker <+: t) → Tidied (left ++ t ++ right) t
  | marked (left marker gap t right : Text) : left.AllBlank → gap.AllBlank → right.AllBlank →
      marker ∈ markers → t.IsTrimmed → t ≠ [] →
      Tidied (left ++ (marker ++ gap ++ t) ++ right) (marker ++ t)

theorem classify_of_notMem_markers {t : Text} (h : ∀ marker ∈ markers, ¬ marker <+: t) :
    (classify t).write = t := by
  by_cases hnil : t = []
  · subst hnil
    rfl
  · rw [classify_of_no_marker hnil (h _ (by decide)) (h _ (by decide)) (h _ (by decide))]
    rfl

/-- What is left of a line is what it is read as, written again. -/
theorem Tidied.eq_write {line t : Text} (h : Tidied line t) : t = (classify line.trim).write := by
  cases h with
  | unmarked left t right hleft hright ht hmarker =>
      rw [Text.trim_eq_of_isTrimmed hleft hright ht, classify_of_notMem_markers hmarker]
  | marked left marker gap t right hleft hgap hright hmarker ht hne =>
      obtain ⟨kind, hwrite, hkind⟩ := exists_classify_marker hmarker
      obtain ⟨hname, hhead⟩ := head?_of_mem_markers hmarker
      have hcore : Text.IsTrimmed (marker ++ gap ++ t) :=
        ht.append hne (by rwa [List.head?_append_of_ne_nil _ hname])
      rw [Text.trim_eq_of_isTrimmed hleft hright hcore, List.append_assoc, hkind,
        hgap.trimStart_append, Text.trimStart_of_head? ht.head, hwrite]

theorem tidied_classify_trim {line : Text} (h : '\n' ∉ line) :
    Tidied line (classify line.trim).write := by
  obtain ⟨left, right, hleft, hright, hline⟩ := line.exists_trim
  have hnewline : '\n' ∉ line.trim := fun hmem => h (Text.mem_of_mem_trim hmem)
  have htrimmed := line.isTrimmed_trim
  generalize line.trim = t at hline hnewline htrimmed ⊢
  subst hline
  by_cases hmarker : ∀ marker ∈ markers, ¬ marker <+: t
  · rw [classify_of_notMem_markers hmarker]
    exact .unmarked left t right hleft hright htrimmed hmarker
  · simp only [not_forall, not_not] at hmarker
    obtain ⟨marker, hmarker, rest, rfl⟩ := hmarker
    obtain ⟨kind, hwrite, hkind⟩ := exists_classify_marker hmarker
    obtain ⟨gap, hgap, hrest⟩ := Text.exists_trimStart rest
    have htext := isContent_trimStart (getLast?_of_mem_markers hmarker) htrimmed hnewline
    rw [hkind, hwrite]
    conv in marker ++ rest => rw [hrest, ← List.append_assoc]
    exact .marked left marker gap _ right hleft hgap hright hmarker htext.trimmed htext.ne_nil

/-- Nothing but blanks is taken away from a line. -/
theorem Tidied.filter_eq {line t : Text} (h : Tidied line t) :
    t.filter (!isBlank ·) = line.filter (!isBlank ·) := by
  cases h with
  | unmarked left t right hleft hright _ _ =>
      simp only [List.filter_append, hleft.filter_eq_nil, hright.filter_eq_nil, List.nil_append,
        List.append_nil]
  | marked left marker gap t right hleft hgap hright _ _ _ =>
      simp only [List.filter_append, hleft.filter_eq_nil, hgap.filter_eq_nil, hright.filter_eq_nil,
        List.nil_append, List.append_nil]

end Line

/-! ### Blocks as lines -/

namespace Block

/-- The marker of the line that a block shows. -/
def marker : Block → Text
  | .heading level _ => level.marker
  | .item _ => bulletMarker
  | .paragraph _ | .spacer | .listOpen | .listClose => []

/-- A block as a line of plain text: its marker and the text that it shows. -/
def write (b : Block) : Text := b.marker ++ decodeText b.plain

theorem write_block (l : Line) : l.block.write = l.write := by
  cases l with
  | blank => rfl
  | heading level t | bullet t | paragraph t =>
      exact congrArg (_ ++ ·) (decodeText_escapeText t)

/-- The blocks of a summary, without the wrappers of lists, show its lines one by one: written as
plain text, each block is what is left of its line without the blanks at its ends and behind its
marker. So the blocks keep all characters that are not blank, in their order. -/
theorem ofSummary_conserves (content : Text) :
    let shown := (ofSummary content).filter (!·.isWrapper)
    shown.length = content.count '\n' + 1 ∧
      List.Forall₂ (fun line b => ∀ t, Line.Tidied line t ↔ t = b.write)
        (content.splitOn '\n') shown ∧
      (Text.unlines (shown.map write)).filter (!isBlank ·) = content.filter (!isBlank ·) := by
  intro shown
  have hshown : shown = content.lines.map fun line => (Line.classify line.trim).block := by
    simp only [shown, ofSummary, ofLines, ListState.filter_blocks, Line.parse, Line.trimmedLines,
      List.map_map]
    rfl
  have htidied : ∀ line ∈ content.lines, Line.Tidied line (Line.classify line.trim).write :=
    fun line hline => Line.tidied_classify_trim (Text.newline_notMem_of_mem_lines hline)
  refine ⟨?_, ?_, ?_⟩
  · rw [hshown, List.length_map, Text.length_lines]
  · rw [hshown, ← Text.lines_eq_splitOn, List.forall₂_map_right_iff, List.forall₂_same]
    intro line hline t
    rw [write_block]
    exact ⟨Line.Tidied.eq_write, fun h => h ▸ htidied line hline⟩
  · conv => rhs; rw [← content.unlines_lines]
    rw [Text.filter_unlines, Text.filter_unlines, hshown, List.map_map, List.flatMap_map]
    refine List.flatMap_congr fun line hline => ?_
    rw [Function.comp_apply, write_block]
    exact (htidied line hline).filter_eq

example : ((ofSummary "\t## a &lt; b\n*  *\n".toList).filter (!·.isWrapper)).map write =
    ["## a &lt; b".toList, "* *".toList, []] := by
  decide

end Block

end MeetingMail
