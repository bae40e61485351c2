import Mathlib.Data.List.DropRight
import MeetingMail.Markup.Entity
import MeetingMail.Proofs.Markup.Cutting

/-!
Removing the tags of a text that has more text behind it.

* `Text.afterLastClosing` is the only place where a bracket can still wait for the end of its tag:
  every opening bracket has a closing one behind it exactly if there is none in that place
  (`bracket_notMem_afterLastClosing_iff`).
* A leftmost cutting of such a text stays leftmost with anything behind it
  (`Cutting.IsLeftmost.plainText_whole_append`). What is open at the end of a text stays in it
  (`suffix_plainText`), so it goes only where more text closes it.
* `plainText_append_iff`: tags can be removed from a text apart from all that may come behind it
  exactly if no opening bracket stands after its last closing one. Escaped text loses nothing, and a
  single tag leaves nothing.
-/

namespace MeetingMail

/-! ### Behind the last closing bracket -/

namespace Text

/-- What a text has behind its last closing bracket: all of it, if there is no such bracket. -/
def afterLastClosing (t : Text) : Text := t.rtakeWhile (· ≠ '>')

theorem afterLastClosing_suffix (t : Text) : t.afterLastClosing <:+ t :=
  List.rtakeWhile_suffix _ t

theorem closing_notMem_afterLastClosing (t : Text) : '>' ∉ t.afterLastClosing := by
  intro hmem
  rw [afterLastClosing] at hmem
  simpa using List.mem_rtakeWhile_imp hmem

theorem afterLastClosing_append {u : Text} (h : '>' ∉ u) (t : Text) :
    afterLastClosing (t ++ u) = t.afterLastClosing ++ u := by
  have hne : ∀ c ∈ u.reverse, decide (c ≠ '>') = true := by
    intro c hc
    refine decide_eq_true fun heq => h ?_
    exact heq ▸ List.mem_reverse.mp hc
  rw [afterLastClosing, afterLastClosing, List.rtakeWhile, List.rtakeWhile, List.reverse_append,
    List.takeWhile_append_of_pos hne, List.reverse_append, List.reverse_reverse]

theorem bracket_notMem_afterLastClosing_iff {t : Text} :
    '<' ∉ t.afterLastClosing ↔ ∀ after, '<' :: after <:+ t → '>' ∈ after := by
  constructor
  · rintro h after ⟨before, rfl⟩
    by_contra hafter
    have hopen : '>' ∉ '<' :: after := by simpa using hafter
    rw [afterLastClosing_append hopen] at h
    exact h (List.mem_append_right (afterLastClosing before) List.mem_cons_self)
  · intro h hmem
    obtain ⟨before, after, heq⟩ := List.append_of_mem hmem
    have hsuffix : '<' :: after <:+ t.afterLastClosing := ⟨before, heq.symm⟩
    have hafter : '>' ∈ after := h after (hsuffix.trans t.afterLastClosing_suffix)
    exact t.closing_notMem_afterLastClosing (hsuffix.subset (List.mem_cons_of_mem '<' hafter))

end Text

/-! ### More text behind a cutting -/

/-- Whether a bracket that is closed begins a tag does not depend on what comes after that. -/
theorem OpensNoTag.append {after : Text} (h : OpensNoTag after) (hclosing : '>' ∈ after)
    (more : Text) : OpensNoTag (after ++ more) := by
  rcases h with hhead | hmem
  · left
    rw [List.head?_append, hhead]
    rfl
  · exact absurd hclosing hmem

theorem Stays.append {run rest : Text} (h : Stays run rest)
    (hclosing : ∀ after, '<' :: after <:+ run → '>' ∈ after ++ rest) (more : Text) :
    Stays run (rest ++ more) := by
  intro after hsuffix
  rw [← List.append_assoc]
  exact (h after hsuffix).append (hclosing after hsuffix) more

theorem IsTag.closing_mem {tag : Text} (h : IsTag tag) : '>' ∈ tag := by
  obtain ⟨inside, rfl, -⟩ := h
  simp

/-- The tags of a text in which every opening bracket has a closing one behind it are its own: the
text that follows has no part in them. -/
theorem Cutting.IsLeftmost.plainText_whole_append {d : Cutting} (h : d.IsLeftmost)
    (hclosing : ∀ after, '<' :: after <:+ d.whole → '>' ∈ after) (more : Text) :
    plainText (d.whole ++ more) = d.kept ++ plainText more := by
  induction d with
  | last run =>
      have hstays : Stays run more := by
        refine Stays.append h (fun after hsuffix => ?_) more
        rw [List.append_nil]
        exact hclosing after hsuffix
      exact plainText_append_of_stays hstays
  | cut run tag rest ih =>
      obtain ⟨hrun, htag, hrest⟩ := h
      -- The brackets of a run in front of a tag are closed by that tag at the latest.
      have hstays : Stays run (tag ++ rest.whole ++ more) :=
        hrun.append (fun after _ => by simp [htag.closing_mem]) more
      have hbehind : ∀ after, '<' :: after <:+ rest.whole → '>' ∈ after := by
        intro after hsuffix
        refine hclosing after (hsuffix.trans ⟨run ++ tag, ?_⟩)
        rw [whole, List.append_assoc]
      calc plainText ((cut run tag rest).whole ++ more)
          = plainText (run ++ (tag ++ rest.whole ++ more)) := by rw [whole, List.append_assoc]
        _ = run ++ plainText (tag ++ (rest.whole ++ more)) := by
              rw [plainText_append_of_stays hstays, List.append_assoc]
        _ = run ++ (rest.kept ++ plainText more) := by
              rw [htag.plainText_append, ih hrest hbehind]
        _ = (cut run tag rest).kept ++ plainText more := by rw [kept, List.append_assoc]

/-! ### The open end of a text -/

/-- An end of a text that has no closing bracket does not reach over one. -/
theorem suffix_of_suffix_append_closing {t u v : Text} (hv : '>' ∉ v)
    (h : v <:+ t ++ '>' :: u) : v <:+ u := by
  rcases List.suffix_or_suffix_of_suffix h (List.suffix_append t ('>' :: u)) with hinner | houter
  · rcases List.suffix_cons_iff.mp hinner with rfl | hsuffix
    · exact absurd List.mem_cons_self hv
    · exact hsuffix
  · exact absurd (houter.subset List.mem_cons_self) hv

theorem Cutting.IsLeftmost.suffix_kept {d : Cutting} (h : d.IsLeftmost) {v : Text} (hv : '>' ∉ v)
    (hsuffix : v <:+ d.whole) : v <:+ d.kept := by
  induction d with
  | last run => exact hsuffix
  | cut run tag rest ih =>
      obtain ⟨-, ⟨inside, rfl, -⟩, hrest⟩ := h
      have hwhole : (cut run ('<' :: (inside ++ ['>'])) rest).whole
          = run ++ '<' :: inside ++ '>' :: rest.whole := by
        simp [whole]
      rw [hwhole] at hsuffix
      have hbehind : v <:+ rest.kept := ih hrest (suffix_of_suffix_append_closing hv hsuffix)
      exact hbehind.trans (List.suffix_append run rest.kept)

/-- No tag reaches into an end of a text that has no closing bracket. -/
theorem suffix_plainText {t v : Text} (hv : '>' ∉ v) (h : v <:+ t) : v <:+ plainText t := by
  obtain ⟨d, hd, rfl⟩ := Cutting.exists_isLeftmost t
  rw [hd.plainText_whole]
  exact hd.suffix_kept hv h

/-- An opening bracket with no closing one behind it makes a tag with a text that closes it. What
comes of the two texts apart would still have that tag. -/
theorem plainText_append_ne_of_open {t after : Text} (hsuffix : '<' :: after <:+ t)
    (hafter : '>' ∉ after) : plainText (t ++ ['x', '>']) ≠ plainText t ++ plainText ['x', '>'] := by
  intro heq
  obtain ⟨d, hd, hwhole⟩ := Cutting.exists_isLeftmost (t ++ ['x', '>'])
  have hfree : TagFree (plainText t ++ ['x', '>']) := by
    rw [← plainText_of_opening_notMem (t := ['x', '>']) (by decide), ← heq, ← hwhole,
      hd.plainText_whole]
    exact hd.tagFree_kept
  have hopen : '>' ∉ '<' :: after := by simpa using hafter
  obtain ⟨before, hbefore⟩ := suffix_plainText hopen hsuffix
  refine hfree ('<' :: (after ++ ['x'] ++ ['>'])) ?_ ⟨before, [], ?_⟩
  · exact ⟨after ++ ['x'], rfl, by simp, by simpa using hafter⟩
  · rw [← hbefore]
    simp

/-! ### A text and what comes behind it -/

/-- Tags can be removed from a text apart from all that may come behind it exactly if no opening
bracket stands after its last closing one. Escaped text loses nothing, and two brackets go with what
is between them exactly if there is something. -/
theorem plainText_append_iff (t raw inside : Text) :
    ((∀ more, plainText (t ++ more) = plainText t ++ plainText more) ↔
        '<' ∉ t.afterLastClosing) ∧
      plainText (escapeText raw) = escapeText raw ∧
      ('>' ∉ inside → (plainText ('<' :: (inside ++ ['>'])) = [] ↔ inside ≠ [])) := by
  refine ⟨?_, ?_, ?_⟩
  · constructor
    · intro h
      rw [Text.bracket_notMem_afterLastClosing_iff]
      intro after hsuffix
      by_contra hafter
      exact plainText_append_ne_of_open hsuffix hafter (h ['x', '>'])
    · intro h more
      have hclosing := Text.bracket_notMem_afterLastClosing_iff.mp h
      obtain ⟨d, hd, rfl⟩ := Cutting.exists_isLeftmost t
      rw [hd.plainText_whole_append hclosing, hd.plainText_whole]
  · exact plainText_of_opening_notMem (bracket_notMem_escapeText (.inl rfl) raw)
  · intro hinside
    constructor
    · rintro hnil rfl
      rw [List.nil_append, plainText_closed_at_once] at hnil
      cases hnil
    · intro hne
      rw [plainText_tag_append hne hinside, plainText]

/-- Brackets that are closed at once, a tag with an opening bracket inside, and a comparison behind
the last tag, in front of a text that begins with a closing bracket. -/
theorem plainText_append_comparison :
    let t : Text := "<>a<b<i>c > d".toList
    let more : Text := "> e<hr>".toList
    let inside : Text := "p <b".toList
    '<' ∉ t.afterLastClosing ∧ plainText (t ++ more) = plainText t ++ plainText more ∧
      '>' ∉ inside ∧ inside ≠ [] ∧ plainText ('<' :: (inside ++ ['>'])) = [] :=
  ⟨by decide, (plainText_append_iff _ [] []).1.mpr (by decide) _, by decide, by decide,
    ((plainText_append_iff [] [] _).2.2 (by decide)).mpr (by decide)⟩

end MeetingMail
