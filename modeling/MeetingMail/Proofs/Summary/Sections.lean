import Mathlib.Data.List.Chain
import Mathlib.Data.List.Forall2
import Mathlib.Data.Set.Function
import MeetingMail.Summary.Block

/-!
The block lists that summaries become.

* A `Section` is a heading, a paragraph, a spacer or a whole list, which has at least one item.
* `IsListing` is the grammar of the block lists: sections in any order, with no list right behind
  another one.
* `ofLines_bijOn`: turning lines into blocks is a bijection onto the block lists of that grammar,
  and without the wrappers of the lists there is one block for each line.
-/

namespace MeetingMail

/-! ### The grammar -/

/-- A unit of the content. The blocks of a list are one unit. -/
inductive Section where
  | heading (level : Level) (text : Escaped)
  | paragraph (text : Escaped)
  | spacer
  | list (first : Escaped) (others : List Escaped)
  deriving DecidableEq

def Section.blocks : Section → List Block
  | .heading level t => [.heading level t]
  | .paragraph t => [.paragraph t]
  | .spacer => [.spacer]
  | .list first others => .listOpen :: (first :: others).map .item ++ [.listClose]

/-- Sections one after the other, in which no list ends where another one begins. -/
structure IsListing (bs : List Block) : Prop where
  sections : ∃ ss : List Section, bs = ss.flatMap Section.blocks
  apart : bs.IsChain fun b c => b = .listClose → c ≠ .listOpen

/-- Whether a block only opens or closes a list. -/
def Block.isWrapper : Block → Bool
  | .listOpen | .listClose => true
  | _ => false

/-- A line and the block of the same kind that shows the text of the line, escaped. -/
inductive Line.Shown : Line → Block → Prop where
  | blank : Shown .blank .spacer
  | heading {level : Level} {t : Text} {e : Escaped} :
      e.text = escapeText t → Shown (.heading level t) (.heading level e)
  | bullet {t : Text} {e : Escaped} : e.text = escapeText t → Shown (.bullet t) (.item e)
  | paragraph {t : Text} {e : Escaped} : e.text = escapeText t → Shown (.paragraph t) (.paragraph e)

theorem Line.shown_block (l : Line) : l.Shown l.block := by
  cases l with
  | blank => exact .blank
  | heading level t => exact .heading rfl
  | bullet t => exact .bullet rfl
  | paragraph t => exact .paragraph rfl

theorem Line.isWrapper_block (l : Line) : l.block.isWrapper = false := by
  cases l <;> rfl

/-! ### The blocks that lines add -/

namespace ListState

@[simp] theorem blocks_nil (s : ListState) : s.blocks [] = s.closing := rfl

theorem blocks_cons (s : ListState) (l : Line) (ls : List Line) :
    s.blocks (l :: ls) = s.before l ++ l.block :: (after l).blocks ls := by
  simp [blocks, step]

@[simp] theorem filter_closing (s : ListState) : s.closing.filter (!·.isWrapper) = [] := by
  cases s <;> rfl

@[simp] theorem filter_before (s : ListState) (l : Line) :
    (s.before l).filter (!·.isWrapper) = [] := by
  cases s <;> cases l <;> rfl

/-- Without the wrappers of the lists there is one block for each line. -/
theorem filter_blocks (s : ListState) (ls : List Line) :
    (s.blocks ls).filter (!·.isWrapper) = ls.map Line.block := by
  induction ls generalizing s with
  | nil => exact s.filter_closing
  | cons l ls ih =>
      rw [blocks_cons, List.filter_append, filter_before, List.nil_append,
        List.filter_cons_of_pos (by simp [l.isWrapper_block]), ih, List.map_cons]

/-- What has to follow in a state: sections, and in front of them the rest of a list that is
open. -/
def Completes : ListState → List Block → Prop
  | .outside, bs => ∃ ss : List Section, bs = ss.flatMap Section.blocks
  | .inside, bs => ∃ (items : List Escaped) (ss : List Section),
      bs = items.map .item ++ .listClose :: ss.flatMap Section.blocks

/-- A section of one block in front of what completes the start, behind the end of an open list. -/
theorem Completes.section_cons {c : Section} {b : Block} (hc : c.blocks = [b]) {bs : List Block}
    (h : Completes .outside bs) (s : ListState) : s.Completes (s.closing ++ b :: bs) := by
  obtain ⟨ss, rfl⟩ := h
  cases s with
  | outside => exact ⟨c :: ss, by simp [closing, hc]⟩
  | inside => exact ⟨[], c :: ss, by simp [closing, hc]⟩

/-- The end of the list that may be open, in front of what completes the start. -/
theorem Completes.closing_append {bs : List Block} (h : Completes .outside bs) (s : ListState) :
    s.Completes (s.closing ++ bs) := by
  cases s with
  | outside => exact h
  | inside =>
      obtain ⟨ss, rfl⟩ := h
      exact ⟨[], ss, rfl⟩

/-- One line keeps the grammar: in front of what completes the state after the line, its blocks
complete the state before it. -/
theorem Completes.step {l : Line} {bs : List Block} (h : (after l).Completes bs) (s : ListState) :
    s.Completes (s.before l ++ l.block :: bs) := by
  cases l with
  | blank => cases s <;> exact h.section_cons (c := .spacer) rfl _
  | heading level t => cases s <;> exact h.section_cons (c := .heading level (.of t)) rfl _
  | paragraph t => cases s <;> exact h.section_cons (c := .paragraph (.of t)) rfl _
  | bullet t =>
      obtain ⟨items, ss, rfl⟩ := h
      cases s with
      | outside => exact ⟨.list (.of t) items :: ss, by simp [before, Line.block, Section.blocks]⟩
      | inside => exact ⟨.of t :: items, ss, by simp [before, Line.block]⟩

theorem completes_blocks (s : ListState) (ls : List Line) : s.Completes (s.blocks ls) := by
  induction ls generalizing s with
  | nil =>
      cases s with
      | outside => exact ⟨[], rfl⟩
      | inside => exact ⟨[], [], rfl⟩
  | cons l ls ih =>
      rw [blocks_cons]
      exact (ih (after l)).step s

/-- No list opens where one has just been closed: a list is only closed in front of a line of
another kind. -/
theorem apart_blocks (s : ListState) (ls : List Line) :
    (s.blocks ls).IsChain fun b c => b = .listClose → c ≠ .listOpen := by
  induction ls generalizing s with
  | nil => cases s <;> simp [closing]
  | cons l ls ih =>
      have htail : (l.block :: (after l).blocks ls).IsChain
          fun b c => b = .listClose → c ≠ .listOpen := by
        rw [List.isChain_cons]
        refine ⟨?_, ih _⟩
        intro c _ hclose
        cases l <;> cases hclose
      rw [blocks_cons]
      cases s <;> cases l <;> simp_all [before, closing, Line.block]

end ListState

/-! ### From blocks back to lines -/

/-- The line that a block was made from. The wrappers of a list come from no line. -/
def Block.line? : Block → Option Line
  | .heading level t => some (.heading level t.raw)
  | .paragraph t => some (.paragraph t.raw)
  | .spacer => some .blank
  | .item t => some (.bullet t.raw)
  | .listOpen | .listClose => none

theorem Line.line?_block (l : Line) : l.block.line? = some l := by
  cases l <;> simp [Line.block, Block.line?]

namespace ListState

/-- The lines can be read off the blocks. -/
theorem filterMap_line?_blocks (s : ListState) (ls : List Line) :
    (s.blocks ls).filterMap Block.line? = ls := by
  have hline : Block.line? = fun b => if !b.isWrapper then b.line? else none := by
    funext b
    cases b <;> rfl
  have hback : Block.line? ∘ Line.block = some := funext Line.line?_block
  rw [hline, ← List.filterMap_filter, filter_blocks, List.filterMap_map, hback,
    List.filterMap_some]

/-- Bullets inside a list add nothing but items. -/
theorem blocks_inside_bullets (items : List Escaped) (ls : List Line) :
    inside.blocks (items.map (.bullet ·.raw) ++ ls) = items.map .item ++ inside.blocks ls := by
  induction items with
  | nil => rfl
  | cons e items ih =>
      rw [List.map_cons, List.cons_append, blocks_cons]
      simp only [before, after, Line.block, Escaped.of_raw, List.nil_append, ih, List.map_cons,
        List.cons_append]

/-- A list ends at once where no bullet follows. -/
theorem blocks_inside_of_not_bullet {ls : List Line} (h : ∀ t, ls.head? ≠ some (.bullet t)) :
    inside.blocks ls = .listClose :: outside.blocks ls := by
  cases ls with
  | nil => rfl
  | cons l ls =>
      cases l with
      | bullet t => exact absurd rfl (h t)
      | blank | heading _ _ | paragraph _ => rfl

end ListState

def Section.lines (c : Section) : List Line := c.blocks.filterMap Block.line?

theorem Section.lines_list (first : Escaped) (others : List Escaped) :
    (Section.list first others).lines = (first :: others).map (.bullet ·.raw) := by
  have hitem : Block.line? ∘ Block.item = some ∘ (Line.bullet ·.raw) := rfl
  rw [lines, blocks, List.filterMap_append, List.filterMap_cons_none rfl, List.filterMap_map, hitem,
    List.filterMap_eq_map, List.filterMap_cons_none rfl, List.filterMap_nil, List.append_nil]

theorem Section.getLast?_blocks {c : Section} (h : Block.listClose ∈ c.blocks) :
    c.blocks.getLast? = some .listClose := by
  cases c with
  | list first others => exact List.getLast?_concat
  | spacer | heading level e | paragraph e => simp [blocks] at h

/-- Sections start with a list exactly where their lines start with a bullet. -/
theorem head?_lines_ne_bullet {ss : List Section}
    (h : (ss.flatMap Section.blocks).head? ≠ some .listOpen) (t : Text) :
    (ss.flatMap Section.lines).head? ≠ some (.bullet t) := by
  cases ss with
  | nil => simp
  | cons c ss =>
      cases c with
      | list first others => exact absurd rfl h
      | spacer => simp [Section.lines, Section.blocks, Block.line?]
      | heading level e => simp [Section.lines, Section.blocks, Block.line?]
      | paragraph e => simp [Section.lines, Section.blocks, Block.line?]

/-- The lines of a section become its blocks, unless a list goes on behind it. -/
theorem Section.blocks_lines_append (c : Section) {ls : List Line}
    (h : Block.listClose ∈ c.blocks → ∀ t, ls.head? ≠ some (.bullet t)) :
    ListState.outside.blocks (c.lines ++ ls) = c.blocks ++ ListState.outside.blocks ls := by
  cases c with
  | heading level e => simp [lines, blocks, Block.line?, ListState.blocks_cons, Line.block]; rfl
  | paragraph e => simp [lines, blocks, Block.line?, ListState.blocks_cons, Line.block]; rfl
  | spacer => rfl
  | list first others =>
      have hend := ListState.blocks_inside_of_not_bullet (h (by simp [blocks]))
      rw [lines_list, List.map_cons, List.cons_append, ListState.blocks_cons, ListState.after,
        ListState.blocks_inside_bullets, hend]
      simp [ListState.before, Line.block, blocks]

namespace Block

theorem isListing_ofLines (ls : List Line) : IsListing (ofLines ls) :=
  ⟨ListState.completes_blocks .outside ls, ListState.apart_blocks .outside ls⟩

/-- Blocks of the grammar are the blocks of the lines that can be read off them. -/
theorem ofLines_filterMap_line? {bs : List Block} (h : IsListing bs) :
    ofLines (bs.filterMap line?) = bs := by
  obtain ⟨⟨ss, rfl⟩, apart⟩ := h
  rw [List.filterMap_flatMap]
  change ofLines (ss.flatMap Section.lines) = _
  induction ss with
  | nil => rfl
  | cons c ss ih =>
      rw [List.flatMap_cons] at apart
      obtain ⟨-, htail, hseam⟩ := List.isChain_append.mp apart
      have hnext : listClose ∈ c.blocks →
          ∀ t, (ss.flatMap Section.lines).head? ≠ some (.bullet t) := by
        intro hlist t
        refine head?_lines_ne_bullet (fun hopen => ?_) t
        exact hseam _ (Section.getLast?_blocks hlist) _ hopen rfl rfl
      rw [List.flatMap_cons, List.flatMap_cons, ofLines, c.blocks_lines_append hnext]
      exact congrArg _ (ih htail)

/-- Lines become the block lists of the grammar, each of them in exactly one way. Without the
wrappers of the lists there is one block for each line, in the same order. -/
theorem ofLines_bijOn :
    Set.BijOn ofLines Set.univ {bs | IsListing bs} ∧
      ∀ ls, List.Forall₂ Line.Shown ls ((ofLines ls).filter (!·.isWrapper)) := by
  refine ⟨⟨fun ls _ => isListing_ofLines ls, ?_, ?_⟩, fun ls => ?_⟩
  · intro ls _ ls' _ heq
    rw [← ListState.filterMap_line?_blocks .outside ls,
      ← ListState.filterMap_line?_blocks .outside ls']
    exact congrArg (List.filterMap line?) heq
  · intro bs hbs
    exact ⟨bs.filterMap line?, Set.mem_univ _, ofLines_filterMap_line? hbs⟩
  · rw [ofLines, ListState.filter_blocks, List.forall₂_map_right_iff, List.forall₂_same]
    exact fun l _ => l.shown_block

end Block

end MeetingMail
