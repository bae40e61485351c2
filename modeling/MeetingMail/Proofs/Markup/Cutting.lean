import Mathlib.Data.List.Basic
import MeetingMail.Proofs.Markup.Plain

/-!
The tags in any text, rendered or not, and the text cut at them.

* `OpensNoTag` says what may come after an opening bracket that begins no tag: a closing bracket at
  once, or none at all. A text without tags is one where this is so after every opening bracket
  (`tagFree_iff`).
* A `Cutting` takes a text apart into runs that stay and tags that go. It is leftmost if no opening
  bracket in a run begins a tag, with all of the text behind it in view.
* `plainText_eq_kept`: every text has exactly one leftmost cutting, and `plainText` keeps its runs.
* `tagFree_plainText`: no tag is left, although the runs on both sides of a tag come together.
-/

namespace MeetingMail

/-! ### Tags -/

/-- An opening bracket, at least one character that is no closing bracket, and a closing bracket. -/
def IsTag (t : Text) : Prop :=
  ∃ inside, t = '<' :: (inside ++ ['>']) ∧ inside ≠ [] ∧ '>' ∉ inside

/-- No tag begins with an opening bracket in front of this text. -/
def OpensNoTag (after : Text) : Prop := after.head? = some '>' ∨ '>' ∉ after

/-- No part of the text is a tag. -/
def TagFree (t : Text) : Prop := ∀ tag, IsTag tag → ¬ tag <:+: t

theorem IsTag.exists_eq_cons {tag : Text} (h : IsTag tag) : ∃ inside, tag = '<' :: inside := by
  obtain ⟨inside, rfl, -⟩ := h
  exact ⟨inside ++ ['>'], rfl⟩

theorem not_opensNoTag_iff {after : Text} :
    ¬ OpensNoTag after ↔
      ∃ inside rest, after = inside ++ '>' :: rest ∧ inside ≠ [] ∧ '>' ∉ inside := by
  constructor
  · intro h
    obtain ⟨hhead, hmem⟩ := not_or.mp h
    obtain ⟨inside, rest, rfl, hinside⟩ := List.eq_append_cons_of_mem (not_not.mp hmem)
    refine ⟨inside, rest, rfl, ?_, hinside⟩
    rintro rfl
    exact hhead rfl
  · rintro ⟨inside, rest, rfl, hne, hinside⟩ (hhead | hmem)
    · rw [List.head?_append_of_ne_nil _ hne] at hhead
      exact hinside (List.mem_of_mem_head? hhead)
    · exact hmem (List.mem_append_right inside List.mem_cons_self)

/-- A tag does begin with its opening bracket, whatever comes behind the tag. -/
theorem IsTag.not_opensNoTag {tag rest after : Text} (h : IsTag tag)
    (heq : tag ++ rest = '<' :: after) : ¬ OpensNoTag after := by
  obtain ⟨inside, rfl, hne, hinside⟩ := h
  refine not_opensNoTag_iff.mpr ⟨inside, rest, ?_, hne, hinside⟩
  rw [List.cons_append, List.cons.injEq] at heq
  rw [← heq.2, List.append_assoc, List.singleton_append]

theorem tagFree_iff {t : Text} : TagFree t ↔ ∀ after, '<' :: after <:+ t → OpensNoTag after := by
  constructor
  · intro h after hsuffix
    by_contra htag
    obtain ⟨inside, rest, rfl, hne, hinside⟩ := not_opensNoTag_iff.mp htag
    refine h _ ⟨inside, rfl, hne, hinside⟩ (List.IsInfix.trans ?_ hsuffix.isInfix)
    exact ⟨[], rest, by simp⟩
  · intro h tag htag hinfix
    obtain ⟨u, ⟨rest, rfl⟩, hsuffix⟩ := List.infix_iff_prefix_suffix.mp hinfix
    obtain ⟨inside, rfl⟩ := htag.exists_eq_cons
    exact htag.not_opensNoTag rfl (h (inside ++ rest) hsuffix)

/-- A tag ends with its first closing bracket, so what begins with one does so in one way only. -/
theorem IsTag.eq_of_append_eq {tag tag' rest rest' : Text} (h : IsTag tag) (h' : IsTag tag')
    (heq : tag ++ rest = tag' ++ rest') : tag = tag' ∧ rest = rest' := by
  obtain ⟨inside, rfl, -, hinside⟩ := h
  obtain ⟨inside', rfl, -, hinside'⟩ := h'
  have hrest : inside ++ '>' :: rest = inside' ++ '>' :: rest' := by simpa using heq
  have hcut : cutAtClosing? (inside ++ '>' :: rest) = some (inside, rest) :=
    cutAtClosing?_eq_some_iff.mpr ⟨rfl, hinside⟩
  rw [cutAtClosing?_eq_some_iff.mpr ⟨hrest, hinside'⟩] at hcut
  cases hcut
  exact ⟨rfl, rfl⟩

/-! ### Runs that stay -/

/-- No opening bracket in a run begins a tag, where `rest` comes behind the run. -/
def Stays (run rest : Text) : Prop := ∀ after, '<' :: after <:+ run → OpensNoTag (after ++ rest)

theorem Stays.nil {rest : Text} : Stays [] rest := by
  intro after hsuffix
  cases List.suffix_nil.mp hsuffix

theorem stays_cons {c : Char} {run rest : Text} :
    Stays (c :: run) rest ↔ (c = '<' → OpensNoTag (run ++ rest)) ∧ Stays run rest := by
  constructor
  · intro h
    refine ⟨?_, fun after hsuffix => h after (List.suffix_cons_iff.mpr (.inr hsuffix))⟩
    rintro rfl
    exact h run List.suffix_rfl
  · rintro ⟨hhead, hrun⟩ after hsuffix
    rcases List.suffix_cons_iff.mp hsuffix with heq | hsuffix
    · cases heq
      exact hhead rfl
    · exact hrun after hsuffix

theorem stays_nil_iff {t : Text} : Stays t [] ↔ TagFree t := by
  simp only [Stays, List.append_nil, tagFree_iff]

/-- A run does not go on where a tag begins. -/
theorem IsTag.not_stays_cons {tag rest run others : Text} {c : Char} (h : IsTag tag)
    (heq : tag ++ rest = c :: run ++ others) : ¬ Stays (c :: run) others := by
  intro hstays
  obtain ⟨inside, rfl⟩ := h.exists_eq_cons
  have hc : c = '<' := (List.cons.inj heq).1.symm
  subst hc
  exact h.not_opensNoTag heq ((stays_cons.mp hstays).1 rfl)

/-- Where a tag comes next, an opening bracket in front of it stays only if it is closed at once. -/
theorem IsTag.head?_of_opensNoTag {run tag rest : Text} (h : IsTag tag)
    (hopens : OpensNoTag (run ++ (tag ++ rest))) : run.head? = some '>' := by
  obtain ⟨inside, rfl, -⟩ := h
  rcases hopens with hhead | hmem
  · cases run with
    | nil => cases hhead
    | cons c run => exact hhead
  · exact absurd (by simp) hmem

/-- Runs on both sides of a tag stay when they come together. -/
theorem Stays.append_of_isTag {run tag rest others : Text} (htag : IsTag tag)
    (hrun : Stays run (tag ++ rest)) (hothers : Stays others []) : Stays (run ++ others) [] := by
  induction run with
  | nil => exact hothers
  | cons c run ih =>
      obtain ⟨hc, hrun⟩ := stays_cons.mp hrun
      refine stays_cons.mpr ⟨fun hbracket => .inl ?_, ih hrun⟩
      have hhead : run.head? = some '>' := htag.head?_of_opensNoTag (hc hbracket)
      show (run ++ others ++ []).head? = some '>'
      rw [List.append_nil, List.head?_append, hhead]
      rfl

/-! ### Removing tags -/

theorem plainText_of_closing_notMem {t : Text} (h : '>' ∉ t) : plainText t = t := by
  induction t with
  | nil => rw [plainText]
  | cons c t ih =>
      have ht : '>' ∉ t := fun hmem => h (List.mem_cons_of_mem c hmem)
      by_cases hc : c = '<'
      · subst hc
        exact plainText_unclosed ht
      · rw [plainText_cons_of_ne hc, ih ht]

theorem plainText_bracket_cons {after : Text} (h : OpensNoTag after) :
    plainText ('<' :: after) = '<' :: plainText after := by
  rcases h with hhead | hmem
  · obtain ⟨t, rfl⟩ := List.head?_eq_some_iff.mp hhead
    exact plainText_closed_at_once t
  · rw [plainText_unclosed hmem, plainText_of_closing_notMem hmem]

theorem plainText_append_of_stays {run rest : Text} (h : Stays run rest) :
    plainText (run ++ rest) = run ++ plainText rest := by
  induction run with
  | nil => rfl
  | cons c run ih =>
      obtain ⟨hc, hrun⟩ := stays_cons.mp h
      rw [List.cons_append, List.cons_append, ← ih hrun]
      by_cases hbracket : c = '<'
      · subst hbracket
        exact plainText_bracket_cons (hc rfl)
      · exact plainText_cons_of_ne hbracket (run ++ rest)

theorem IsTag.plainText_append {tag : Text} (h : IsTag tag) (rest : Text) :
    plainText (tag ++ rest) = plainText rest := by
  obtain ⟨inside, rfl, hne, hinside⟩ := h
  rw [List.cons_append, List.append_assoc, List.singleton_append,
    plainText_tag_append hne hinside]

/-- A text without tags is left alone. -/
theorem plainText_eq_self_of_tagFree {t : Text} (h : TagFree t) : plainText t = t := by
  have hstays := plainText_append_of_stays (stays_nil_iff.mpr h)
  rwa [List.append_nil, plainText, List.append_nil] at hstays

/-! ### Cuttings -/

/-- A text taken apart: runs that stay, with a tag that goes between each two neighbours. -/
inductive Cutting where
  | last (run : Text)
  | cut (run tag : Text) (rest : Cutting)

namespace Cutting

/-- The text that was taken apart. -/
def whole : Cutting → Text
  | last run => run
  | cut run tag rest => run ++ (tag ++ rest.whole)

/-- What stays of the text. -/
def kept : Cutting → Text
  | last run => run
  | cut run _ rest => run ++ rest.kept

/-- What goes are tags, and no opening bracket that stays begins one. -/
def IsLeftmost : Cutting → Prop
  | last run => Stays run []
  | cut run tag rest => Stays run (tag ++ rest.whole) ∧ IsTag tag ∧ rest.IsLeftmost

/-- One more character in front of the first run. -/
def cons (c : Char) : Cutting → Cutting
  | last run => last (c :: run)
  | cut run tag rest => cut (c :: run) tag rest

@[simp] theorem whole_cons (c : Char) (d : Cutting) : (d.cons c).whole = c :: d.whole := by
  cases d <;> rfl

theorem IsLeftmost.cons {c : Char} {d : Cutting} (h : d.IsLeftmost)
    (hc : c = '<' → OpensNoTag d.whole) : (d.cons c).IsLeftmost := by
  cases d with
  | last run => exact stays_cons.mpr ⟨fun hbracket => by simpa [whole] using hc hbracket, h⟩
  | cut run tag rest => exact ⟨stays_cons.mpr ⟨hc, h.1⟩, h.2⟩

/-- Every text can be cut: at each opening bracket that is read, either a tag begins, and reading
goes on behind it, or the bracket stays. -/
theorem exists_isLeftmost (t : Text) : ∃ d : Cutting, d.IsLeftmost ∧ d.whole = t := by
  match t with
  | [] => exact ⟨last [], Stays.nil, rfl⟩
  | c :: after =>
      by_cases hc : c = '<' → OpensNoTag after
      · obtain ⟨d, hd, rfl⟩ := exists_isLeftmost after
        exact ⟨d.cons c, hd.cons hc, d.whole_cons c⟩
      · obtain ⟨rfl, hopens⟩ := Classical.not_imp.mp hc
        obtain ⟨inside, rest, hafter, hne, hinside⟩ := not_opensNoTag_iff.mp hopens
        obtain ⟨d, hd, hwhole⟩ := exists_isLeftmost rest
        have htag : IsTag ('<' :: (inside ++ ['>'])) := ⟨inside, rfl, hne, hinside⟩
        refine ⟨cut [] ('<' :: (inside ++ ['>'])) d, ⟨Stays.nil, htag, hd⟩, ?_⟩
        rw [whole, hwhole, hafter]
        simp
termination_by t.length
decreasing_by
  · simp
  · rw [hafter]
    simp only [List.length_cons, List.length_append]
    omega

/-- A leftmost cutting keeps the text as it is without tags. -/
theorem IsLeftmost.plainText_whole {d : Cutting} (h : d.IsLeftmost) :
    plainText d.whole = d.kept := by
  induction d with
  | last run => exact plainText_eq_self_of_tagFree (stays_nil_iff.mp h)
  | cut run tag rest ih =>
      obtain ⟨hrun, htag, hrest⟩ := h
      rw [whole, plainText_append_of_stays hrun, htag.plainText_append, ih hrest, kept]

theorem IsLeftmost.tagFree_kept {d : Cutting} (h : d.IsLeftmost) : TagFree d.kept := by
  rw [← stays_nil_iff]
  induction d with
  | last run => exact h
  | cut run tag rest ih =>
      obtain ⟨hrun, htag, hrest⟩ := h
      exact hrun.append_of_isTag htag (ih hrest)

theorem not_tagFree_whole_cut {run tag : Text} {rest : Cutting} (htag : IsTag tag) :
    ¬ TagFree (cut run tag rest).whole :=
  fun h => h tag htag ⟨run, rest.whole, List.append_assoc run tag rest.whole⟩

/-- The first runs of two leftmost cuttings of one text end at the same place: if one went on where
a tag begins in the other, the bracket of that tag would stay. -/
theorem run_eq_of_append_eq {run run' tag tag' rest rest' : Text} (htag : IsTag tag)
    (htag' : IsTag tag') (hrun : Stays run (tag ++ rest)) (hrun' : Stays run' (tag' ++ rest'))
    (heq : run ++ (tag ++ rest) = run' ++ (tag' ++ rest')) : run = run' := by
  induction run generalizing run' with
  | nil =>
      cases run' with
      | nil => rfl
      | cons c run' => exact absurd hrun' (htag.not_stays_cons heq)
  | cons c run ih =>
      cases run' with
      | nil => exact absurd hrun (htag'.not_stays_cons heq.symm)
      | cons c' run' =>
          obtain ⟨rfl, htail⟩ := List.cons.inj heq
          rw [ih (stays_cons.mp hrun).2 (stays_cons.mp hrun').2 htail]

/-- A text has no second leftmost cutting. -/
theorem IsLeftmost.eq_of_whole_eq {d e : Cutting} (hd : d.IsLeftmost) (he : e.IsLeftmost)
    (h : d.whole = e.whole) : d = e := by
  induction d generalizing e with
  | last run =>
      have htagFree : TagFree (last run).whole := stays_nil_iff.mp hd
      cases e with
      | last run' => exact congrArg last h
      | cut run' tag rest => exact absurd (h ▸ htagFree) (not_tagFree_whole_cut he.2.1)
  | cut run tag rest ih =>
      cases e with
      | last run' =>
          have htagFree : TagFree (last run').whole := stays_nil_iff.mp he
          exact absurd (h ▸ htagFree) (not_tagFree_whole_cut hd.2.1)
      | cut run' tag' rest' =>
          obtain ⟨hrun, htag, hrest⟩ := hd
          obtain ⟨hrun', htag', hrest'⟩ := he
          obtain rfl := run_eq_of_append_eq htag htag' hrun hrun' h
          obtain ⟨rfl, hwhole⟩ := htag.eq_of_append_eq htag' (List.append_cancel_left h)
          rw [ih hrest hrest' hwhole]

end Cutting

/-! ### What stays of a text -/

/-- Every text has exactly one leftmost cutting, and without its tags it is what that one keeps. -/
theorem plainText_eq_kept (t : Text) :
    ∃ d : Cutting, (∀ e : Cutting, e.IsLeftmost ∧ e.whole = t ↔ e = d) ∧ plainText t = d.kept := by
  obtain ⟨d, hd, rfl⟩ := Cutting.exists_isLeftmost t
  refine ⟨d, fun e => ?_, hd.plainText_whole⟩
  constructor
  · rintro ⟨he, hwhole⟩
    exact he.eq_of_whole_eq hd hwhole
  · rintro rfl
    exact ⟨hd, rfl⟩

-- Brackets with nothing inside stay, and a tag takes the opening brackets inside it along.
example : plainText "<>a<b<i>c".toList = "<>ac".toList := by cbv

/-- No tag is left where the tags of a text were removed, so there is nothing to remove again. -/
theorem tagFree_plainText (t : Text) :
    TagFree (plainText t) ∧ (∀ after, '<' :: after <:+ plainText t → OpensNoTag after) ∧
      (plainText t = t ↔ TagFree t) ∧ plainText (plainText t) = plainText t := by
  have hfree : TagFree (plainText t) := by
    obtain ⟨d, hd, rfl⟩ := Cutting.exists_isLeftmost t
    rw [hd.plainText_whole]
    exact hd.tagFree_kept
  refine ⟨hfree, tagFree_iff.mp hfree, ?_, plainText_eq_self_of_tagFree hfree⟩
  constructor
  · intro h
    rwa [h] at hfree
  · exact plainText_eq_self_of_tagFree

end MeetingMail
