import MeetingMail.Email.Page
import MeetingMail.Proofs.Text.Layout

/-!
Lines that can be written and read back.

* `Line.WellFormed` describes the lines that a summary can hold, by their texts alone.
* `parse_unparse`: reading gives well-formed lines only, and well-formed lines are read back from
  the summary that is written for them. So each summary has a normal form, the summary that is
  written for its lines, and is shown like it.
-/

namespace MeetingMail

namespace Line

/-! ### Well-formed lines -/

/-- The texts that lines show. -/
structure IsContent (t : Text) : Prop where
  ne_nil : t ≠ []
  newline_notMem : '\n' ∉ t
  trimmed : t.IsTrimmed

/-- Holds of the lines that stand for themselves: a paragraph must not look like a line of another
kind. -/
def WellFormed : Line → Prop
  | .blank => True
  | .heading _ t | .bullet t => IsContent t
  | .paragraph t =>
      IsContent t ∧ ¬ "### ".toList <+: t ∧ ¬ "## ".toList <+: t ∧ ¬ "* ".toList <+: t

instance (t : Text) : Decidable (IsContent t) :=
  decidable_of_iff (t ≠ [] ∧ '\n' ∉ t ∧ t.IsTrimmed)
    ⟨fun h => ⟨h.1, h.2.1, h.2.2⟩, fun h => ⟨h.ne_nil, h.newline_notMem, h.trimmed⟩⟩

instance : DecidablePred WellFormed
  | .blank => .isTrue trivial
  | .heading _ t | .bullet t => inferInstanceAs (Decidable (IsContent t))
  | .paragraph t => inferInstanceAs (Decidable (IsContent t ∧
      ¬ "### ".toList <+: t ∧ ¬ "## ".toList <+: t ∧ ¬ "* ".toList <+: t))

/-! ### The classifier by the markers -/

theorem classify_marker_append (level : Level) (t : Text) :
    classify (level.marker ++ t) = .heading level t.trimStart := by
  cases level <;> rfl

theorem classify_bulletMarker_append (t : Text) :
    classify (bulletMarker ++ t) = .bullet t.trimStart := rfl

theorem isPrefixOf?_eq_none {m t : Text} (h : ¬ m <+: t) : m.isPrefixOf? t = none := by
  rw [Option.eq_none_iff_forall_ne_some]
  intro rest hrest
  exact h ⟨rest, List.append_eq_of_isPrefixOf?_eq_some hrest⟩

theorem classify_of_no_marker {t : Text} (hne : t ≠ []) (hthree : ¬ Level.three.marker <+: t)
    (htwo : ¬ Level.two.marker <+: t) (hbullet : ¬ bulletMarker <+: t) :
    classify t = .paragraph t := by
  rw [classify, if_neg hne, isPrefixOf?_eq_none hthree, isPrefixOf?_eq_none htwo,
    isPrefixOf?_eq_none hbullet]

/-- Every text is empty, has a marker in front or shows itself. -/
theorem eq_nil_or_marker (t : Text) :
    t = [] ∨ (∃ level rest, t = Level.marker level ++ rest) ∨ (∃ rest, t = bulletMarker ++ rest) ∨
      t ≠ [] ∧ ¬ Level.three.marker <+: t ∧ ¬ Level.two.marker <+: t ∧ ¬ bulletMarker <+: t := by
  by_cases hnil : t = []
  · exact .inl hnil
  by_cases hthree : Level.three.marker <+: t
  · obtain ⟨rest, rfl⟩ := hthree
    exact .inr (.inl ⟨.three, rest, rfl⟩)
  by_cases htwo : Level.two.marker <+: t
  · obtain ⟨rest, rfl⟩ := htwo
    exact .inr (.inl ⟨.two, rest, rfl⟩)
  by_cases hbullet : bulletMarker <+: t
  · obtain ⟨rest, rfl⟩ := hbullet
    exact .inr (.inr (.inl ⟨rest, rfl⟩))
  · exact .inr (.inr (.inr ⟨hnil, hthree, htwo, hbullet⟩))

/-! ### Reading -/

/-- What stands behind a marker in a trimmed line is not all blank: the line would end with a
blank. -/
theorem isContent_trimStart {marker rest : Text} (hmarker : marker.getLast? = some ' ')
    (htrimmed : Text.IsTrimmed (marker ++ rest)) (hnewline : '\n' ∉ marker ++ rest) :
    IsContent (Text.trimStart rest) := by
  have hne : Text.trimStart rest ≠ [] := by
    intro hnil
    have hblank : ∀ c ∈ ' ' :: rest, isBlank c = true := by
      intro c hc
      rcases List.mem_cons.mp hc with rfl | hc
      · decide
      · exact List.dropWhile_eq_nil_iff.mp hnil c hc
    obtain ⟨name, rfl⟩ := List.getLast?_eq_some_iff.mp hmarker
    have hlast : (name ++ [' '] ++ rest).getLast?
        = some ((' ' :: rest).getLast (List.cons_ne_nil _ _)) := by
      rw [List.append_assoc, List.singleton_append,
        List.getLast?_append_of_ne_nil _ (List.cons_ne_nil _ _), List.getLast?_eq_some_getLast]
    have hnot := htrimmed.last _ hlast
    rw [hblank _ (List.getLast_mem _)] at hnot
    cases hnot
  obtain ⟨blanks, hrest⟩ := Text.trimStart_isSuffix rest
  refine ⟨hne, ?_, fun c hc => Text.head?_trimStart hc, fun c hc => htrimmed.last c ?_⟩
  · exact fun hmem => hnewline (List.mem_append_right marker (Text.mem_of_mem_trimStart hmem))
  · rw [← hrest, ← List.append_assoc, List.getLast?_append_of_ne_nil _ hne]
    exact hc

/-- A trimmed line is read as a well-formed one. -/
theorem wellFormed_classify {t : Text} (htrimmed : t.IsTrimmed) (hnewline : '\n' ∉ t) :
    (classify t).WellFormed := by
  rcases eq_nil_or_marker t with
    rfl | ⟨level, rest, rfl⟩ | ⟨rest, rfl⟩ | ⟨hne, hthree, htwo, hbullet⟩
  · trivial
  · rw [classify_marker_append]
    exact isContent_trimStart (by cases level <;> rfl) htrimmed hnewline
  · rw [classify_bulletMarker_append]
    exact isContent_trimStart rfl htrimmed hnewline
  · rw [classify_of_no_marker hne hthree htwo hbullet]
    exact ⟨⟨hne, hnewline, htrimmed⟩, hthree, htwo, hbullet⟩

theorem wellFormed_of_mem_parse {content : Text} {l : Line} (h : l ∈ parse content) :
    l.WellFormed := by
  simp only [parse, trimmedLines, List.mem_map] at h
  obtain ⟨-, ⟨t, ht, rfl⟩, rfl⟩ := h
  refine wellFormed_classify t.isTrimmed_trim fun hmem => ?_
  exact Text.newline_notMem_of_mem_lines ht (Text.mem_of_mem_trim hmem)

/-! ### Writing -/

theorem IsContent.trimStart_eq {t : Text} (h : IsContent t) : t.trimStart = t :=
  Text.trimStart_of_head? h.trimmed.head

/-- A marker in front of a text that a line shows is a trimmed line. -/
theorem IsContent.isTrimmed_append {t : Text} (h : IsContent t) {marker : Text}
    (hmarker : ∀ c ∈ marker.head?, isBlank c = false) : Text.IsTrimmed (marker ++ t) :=
  h.trimmed.append h.ne_nil hmarker

theorem head?_marker {l : Line} : ∀ c ∈ l.marker.head?, isBlank c = false := by
  rcases l with _ | ⟨_ | _, t⟩ | t | t <;> rintro c ⟨⟩ <;> rfl

theorem newline_notMem_marker (l : Line) : '\n' ∉ l.marker := by
  rcases l with _ | ⟨_ | _, t⟩ | t | t
  · exact List.not_mem_nil
  · exact (by decide : '\n' ∉ Level.two.marker)
  · exact (by decide : '\n' ∉ Level.three.marker)
  · exact (by decide : '\n' ∉ bulletMarker)
  · exact List.not_mem_nil

theorem WellFormed.isContent_text {l : Line} (h : l.WellFormed) :
    l = .blank ∨ IsContent l.text := by
  cases l with
  | blank => exact .inl rfl
  | heading level t | bullet t => exact .inr h
  | paragraph t => exact .inr h.1

theorem WellFormed.newline_notMem_write {l : Line} (h : l.WellFormed) : '\n' ∉ l.write := by
  rw [write, List.mem_append, not_or]
  refine ⟨l.newline_notMem_marker, ?_⟩
  obtain rfl | htext := h.isContent_text
  · exact List.not_mem_nil
  · exact htext.newline_notMem

theorem WellFormed.isTrimmed_write {l : Line} (h : l.WellFormed) : l.write.IsTrimmed := by
  obtain rfl | htext := h.isContent_text
  · exact ⟨by simp [write, marker, text], by simp [write, marker, text]⟩
  · exact htext.isTrimmed_append head?_marker

theorem WellFormed.classify_write {l : Line} (h : l.WellFormed) : classify l.write = l := by
  cases l with
  | blank => rfl
  | heading level t => rw [write, marker, text, classify_marker_append, h.trimStart_eq]
  | bullet t => rw [write, marker, text, classify_bulletMarker_append, h.trimStart_eq]
  | paragraph t =>
      obtain ⟨htext, hthree, htwo, hbullet⟩ := h
      exact classify_of_no_marker htext.ne_nil hthree htwo hbullet

/-- Well-formed lines are read back from the summary that is written for them. -/
theorem parse_unparse {ls : List Line} (hne : ls ≠ []) (h : ∀ l ∈ ls, l.WellFormed) :
    parse (unparse ls) = ls := by
  have hlines : Text.lines (unparse ls) = ls.map write := by
    refine Text.lines_unlines (by simpa using hne) fun t ht => ?_
    obtain ⟨l, hl, rfl⟩ := List.mem_map.mp ht
    exact (h l hl).newline_notMem_write
  have hread : ∀ l ∈ ls, classify (Text.trim (write l)) = l := fun l hl => by
    rw [Text.trim_of_isTrimmed (h l hl).isTrimmed_write, (h l hl).classify_write]
  rw [parse, trimmedLines, hlines, List.map_map, List.map_map]
  exact (List.map_congr_left hread).trans (List.map_id' ls)

/-- A summary and its normal form have the same lines. -/
theorem parse_unparse_parse (content : Text) : parse (unparse (parse content)) = parse content :=
  parse_unparse (parse_ne_nil content) fun _ => wellFormed_of_mem_parse

/-- What is read is never empty and well-formed, and everything of this kind can be read: it is
read from what is written for it. So the summary that is written for the lines of another one is
its normal form, which is its own normal form and is shown on the same page. -/
theorem parse_normalForm :
    (∀ content, parse content ≠ [] ∧ ∀ l ∈ parse content, l.WellFormed) ∧
      (∀ ls : List Line, ls ≠ [] → (∀ l ∈ ls, l.WellFormed) → parse (unparse ls) = ls) ∧
      (∀ content,
        unparse (parse (unparse (parse content))) = unparse (parse content)) ∧
      ∀ settings title content,
        renderSummary settings title (unparse (parse content))
          = renderSummary settings title content := by
  refine ⟨fun content => ⟨parse_ne_nil content, fun l => wellFormed_of_mem_parse⟩,
    fun ls => parse_unparse, fun content => ?_, fun settings title content => ?_⟩
  · rw [parse_unparse_parse]
  · rw [renderSummary_eq, renderSummary_eq, Block.ofSummary, Block.ofSummary, parse_unparse_parse]

/-- Texts that look like markers, and one with a marker inside. -/
theorem parse_unparse_markers :
    let ls : List Line := [.heading .two "### Agenda".toList, .blank, .bullet "* a\r\tb".toList,
      .paragraph "##".toList]
    ls ≠ [] ∧ (∀ l ∈ ls, l.WellFormed) ∧ parse (unparse ls) = ls := by
  intro ls
  have hne : ls ≠ [] := List.cons_ne_nil _ _
  have hwell : ∀ l ∈ ls, l.WellFormed := by decide
  exact ⟨hne, hwell, parse_normalForm.2.1 ls hne hwell⟩

end Line

end MeetingMail
