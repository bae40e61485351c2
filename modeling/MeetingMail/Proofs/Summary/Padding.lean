import Mathlib.Data.List.Forall2
import MeetingMail.Proofs.Summary.NormalForm

/-!
Blanks that make no difference to a summary.

* `Line.Padded` relates a line to itself with blanks around it, and with blanks behind its marker.
  `Padded.classify_trim`: a padded line is read like the line.
* `Text.WithReturns` relates a text to itself with carriage returns in front of some of its line
  feeds, which are blanks behind some of its lines.
* `parse_padded`: neither the padding of lines nor the way in which lines end changes what a summary
  is read as, and so the page that shows it.
-/

namespace MeetingMail

/-- Blanks that leave a line one line. -/
def Text.IsPadding (t : Text) : Prop := ∀ c ∈ t, isBlank c = true ∧ c ≠ '\n'

/-- A text and the same text with a carriage return in front of some of its line feeds. -/
inductive Text.WithReturns : Text → Text → Prop where
  | nil : WithReturns [] []
  | cons (c : Char) {t u : Text} : WithReturns t u → WithReturns (c :: t) (c :: u)
  | newline {t u : Text} : WithReturns t u → WithReturns ('\n' :: t) ('\r' :: '\n' :: u)

namespace Text

instance (t : Text) : Decidable t.IsPadding :=
  List.decidableBAll (fun c => isBlank c = true ∧ c ≠ '\n') t

theorem IsPadding.allBlank {t : Text} (h : t.IsPadding) : t.AllBlank := fun c hc => (h c hc).1

theorem IsPadding.newline_notMem {t : Text} (h : t.IsPadding) : '\n' ∉ t :=
  fun hmem => (h _ hmem).2 rfl

/-- A line, as it is or with a carriage return behind it. -/
def IsEnded (l m : Text) : Prop := m = l ∨ m = l ++ ['\r']

theorem isEnded_modifyHead {ls ms : List Text} (c : Char) (h : List.Forall₂ IsEnded ls ms) :
    List.Forall₂ IsEnded (ls.modifyHead (c :: ·)) (ms.modifyHead (c :: ·)) := by
  cases h with
  | nil => exact .nil
  | cons hfirst hothers =>
      refine .cons (hfirst.imp (congrArg _) fun h => ?_) hothers
      rw [h, List.cons_append]

/-- A carriage return in front of a line feed is one behind the line that ends there. -/
theorem WithReturns.lines {t u : Text} (h : WithReturns t u) :
    List.Forall₂ IsEnded (lines t) (lines u) := by
  induction h with
  | nil => exact .cons (.inl rfl) .nil
  | @cons c t u _ ih =>
      by_cases hc : c = '\n'
      · subst hc
        rw [lines_newline_cons, lines_newline_cons]
        exact .cons (.inl rfl) ih
      · rw [lines_cons_of_ne hc, lines_cons_of_ne hc]
        exact isEnded_modifyHead c ih
  | newline _ ih =>
      rw [lines_newline_cons, lines_cons_of_ne (by decide), lines_newline_cons]
      exact .cons (.inr rfl) ih

end Text

namespace Line

/-! ### Marked lines -/

/-- The markers that a line may begin with. -/
def markers : List Text := ["### ".toList, "## ".toList, "* ".toList]

/-- A marker makes a line of one kind, which shows what follows the blanks behind the marker. -/
theorem exists_classify_marker {marker : Text} (h : marker ∈ markers) :
    ∃ kind : Text → Line, (∀ t, (kind t).write = marker ++ t) ∧
      ∀ rest, classify (marker ++ rest) = kind rest.trimStart := by
  simp only [markers, List.mem_cons, List.not_mem_nil, or_false] at h
  rcases h with rfl | rfl | rfl
  · exact ⟨.heading .three, fun _ => rfl, classify_marker_append .three⟩
  · exact ⟨.heading .two, fun _ => rfl, classify_marker_append .two⟩
  · exact ⟨.bullet, fun _ => rfl, classify_bulletMarker_append⟩

theorem head?_of_mem_markers {marker : Text} (h : marker ∈ markers) :
    marker ≠ [] ∧ ∀ c ∈ marker.head?, isBlank c = false := by
  simp only [markers, List.mem_cons, List.not_mem_nil, or_false] at h
  rcases h with rfl | rfl | rfl <;> exact ⟨List.cons_ne_nil _ _, by rintro c ⟨⟩; rfl⟩

theorem getLast?_of_mem_markers {marker : Text} (h : marker ∈ markers) :
    marker.getLast? = some ' ' := by
  revert marker
  decide

/-- A line with a marker is read from its marker and the trimmed text behind it alone. -/
theorem exists_classify_trim_marker {marker : Text} (h : marker ∈ markers) :
    ∃ read : Text → Line, ∀ rest, classify (Text.trim (marker ++ rest)) = read rest.trim := by
  obtain ⟨kind, -, hkind⟩ := exists_classify_marker h
  obtain ⟨hne, hhead⟩ := head?_of_mem_markers h
  refine ⟨fun t => if t = [] then classify marker.trim else kind t, fun rest => ?_⟩
  dsimp only
  split
  · -- Nothing but blanks follows, so that the space of the marker is trimmed away too.
    rename_i hnil
    rw [Text.trim_append_of_trim_eq_nil hnil]
  · rename_i hrest
    obtain ⟨gap, hgap, htrim⟩ := Text.exists_trim_append hne hhead hrest
    rw [htrim, List.append_assoc, hkind, hgap.trimStart_append,
      Text.trimStart_of_head? rest.isTrimmed_trim.head]

/-! ### Padded lines -/

/-- A line and the same line with blanks around it, and behind its marker if it has one. -/
inductive Padded : Text → Text → Prop where
  | around (left line right : Text) : left.IsPadding → right.IsPadding →
      Padded line (left ++ line ++ right)
  | marked (left marker gap rest right : Text) : marker ∈ markers → left.IsPadding →
      gap.IsPadding → right.IsPadding →
      Padded (marker ++ rest) (left ++ (marker ++ gap ++ rest) ++ right)

theorem Padded.classify_trim {t u : Text} (h : Padded t u) :
    classify u.trim = classify t.trim := by
  cases h with
  | around left line right hleft hright =>
      rw [Text.trim_append_append hleft.allBlank hright.allBlank]
  | marked left marker gap rest right hmarker hleft hgap hright =>
      obtain ⟨read, hread⟩ := exists_classify_trim_marker hmarker
      have hrest : Text.trim (gap ++ rest) = rest.trim := by
        have := Text.trim_append_append hgap.allBlank .nil rest
        rwa [List.append_nil] at this
      rw [Text.trim_append_append hleft.allBlank hright.allBlank, List.append_assoc, hread, hread,
        hrest]

theorem Padded.newline_notMem {t u : Text} (h : Padded t u) (ht : '\n' ∉ t) : '\n' ∉ u := by
  cases h with
  | around left line right hleft hright =>
      simp only [List.mem_append, not_or]
      exact ⟨⟨hleft.newline_notMem, ht⟩, hright.newline_notMem⟩
  | marked left marker gap rest right hmarker hleft hgap hright =>
      simp only [List.mem_append, not_or] at ht ⊢
      exact ⟨⟨hleft.newline_notMem, ⟨ht.1, hgap.newline_notMem⟩, ht.2⟩, hright.newline_notMem⟩

/-! ### Padded summaries -/

theorem parse_eq_of_padded {t u : Text} (h : List.Forall₂ Padded t.lines u.lines) :
    parse u = parse t := by
  rw [parse, parse, trimmedLines, trimmedLines, List.map_map, List.map_map]
  generalize t.lines = ls, u.lines = ms at h
  induction h with
  | nil => rfl
  | cons hline _ ih => exact congrArg₂ List.cons hline.classify_trim ih

theorem newline_notMem_of_padded {ls ms : List Text} (h : List.Forall₂ Padded ls ms)
    (hls : ∀ l ∈ ls, '\n' ∉ l) : ∀ m ∈ ms, '\n' ∉ m := by
  induction h with
  | nil => exact List.forall_mem_nil _
  | cons hline _ ih =>
      obtain ⟨hfirst, hothers⟩ := List.forall_mem_cons.mp hls
      exact List.forall_mem_cons.mpr ⟨hline.newline_notMem hfirst, ih hothers⟩

theorem parse_unlines_of_padded {ls ms : List Text} (hls : ∀ l ∈ ls, '\n' ∉ l)
    (h : List.Forall₂ Padded ls ms) : parse (Text.unlines ms) = parse (Text.unlines ls) := by
  by_cases hne : ls = []
  · subst hne
    rw [List.forall₂_nil_left_iff.mp h]
  · have hne' : ms ≠ [] := by
      rintro rfl
      exact hne (List.forall₂_nil_right_iff.mp h)
    refine parse_eq_of_padded ?_
    rwa [Text.lines_unlines hne hls, Text.lines_unlines hne' (newline_notMem_of_padded h hls)]

theorem parse_eq_of_withReturns {t u : Text} (h : t.WithReturns u) : parse u = parse t := by
  refine parse_eq_of_padded (h.lines.imp fun l m hm => ?_)
  rcases hm with rfl | rfl
  · simpa using Padded.around [] m [] (by decide) (by decide)
  · exact .around [] l ['\r'] (by decide) (by decide)

/-- The page shows what a summary is read as, and nothing else of it. -/
theorem renderSummary_of_parse_eq {t u : Text} (h : parse u = parse t) (settings : Settings)
    (title : Option Text) : renderSummary settings title u = renderSummary settings title t := by
  rw [renderSummary_eq, renderSummary_eq, Block.ofSummary, Block.ofSummary, h]

/-- Lines with blanks around them, and with blanks behind their markers, are read like the lines
without these blanks, into the same blocks and the same page. In the same way it makes no
difference which of the lines of a summary end in a carriage return. -/
theorem parse_padded :
    (∀ ls ms : List Text, (∀ l ∈ ls, '\n' ∉ l) → List.Forall₂ Padded ls ms →
      parse (Text.unlines ms) = parse (Text.unlines ls) ∧
        Block.ofSummary (Text.unlines ms) = Block.ofSummary (Text.unlines ls) ∧
        ∀ settings title, renderSummary settings title (Text.unlines ms)
          = renderSummary settings title (Text.unlines ls)) ∧
    ∀ t u : Text, t.WithReturns u →
      parse u = parse t ∧
        ∀ settings title, renderSummary settings title u = renderSummary settings title t := by
  constructor
  · intro ls ms hls hpadded
    have hparse := parse_unlines_of_padded hls hpadded
    exact ⟨hparse, congrArg Block.ofLines hparse, renderSummary_of_parse_eq hparse⟩
  · intro t u hreturns
    have hparse := parse_eq_of_withReturns hreturns
    exact ⟨hparse, renderSummary_of_parse_eq hparse⟩

/-- A heading and a bare bullet between blanks of several kinds, and a text in which one of two
lines ends in a carriage return. -/
theorem parse_padded_blanks :
    let ls := ["## Plan".toList, "* ".toList]
    let ms := ["\u00A0##  \tPlan\r\r".toList, "\t*  \u2028".toList]
    (∀ l ∈ ls, '\n' ∉ l) ∧ List.Forall₂ Padded ls ms ∧
      parse (Text.unlines ms) = parse (Text.unlines ls) ∧
      Text.WithReturns "* a\n* b\nc".toList "* a\r\n* b\nc".toList ∧
      parse "* a\r\n* b\nc".toList = parse "* a\n* b\nc".toList := by
  intro ls ms
  have hls : ∀ l ∈ ls, '\n' ∉ l := by decide
  have hheading : Padded "## Plan".toList "\u00A0##  \tPlan\r\r".toList :=
    .marked ['\u00A0'] "## ".toList " \t".toList "Plan".toList "\r\r".toList (by decide)
      (by decide) (by decide) (by decide)
  have hbullet : Padded "* ".toList "\t*  \u2028".toList :=
    .marked ['\t'] "* ".toList [' '] [] ['\u2028'] (by decide) (by decide) (by decide) (by decide)
  have hpadded : List.Forall₂ Padded ls ms := .cons hheading (.cons hbullet .nil)
  have hreturns : Text.WithReturns "* a\n* b\nc".toList "* a\r\n* b\nc".toList :=
    .cons _ <| .cons _ <| .cons _ <| .newline <| .cons _ <| .cons _ <| .cons _ <| .cons _ <|
      .cons _ .nil
  exact ⟨hls, hpadded, (parse_padded.1 ls ms hls hpadded).1, hreturns,
    (parse_padded.2 _ _ hreturns).1⟩

end Line

end MeetingMail
