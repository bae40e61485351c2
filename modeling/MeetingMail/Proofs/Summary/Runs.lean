import Mathlib.Data.List.SplitBy
import MeetingMail.Proofs.Summary.Seams
import MeetingMail.Proofs.Text.Layout

/-!
The runs of bullets in a summary, and the number of its blocks.

* `Line.stretches` cuts lines into the longest stretches of bullets and of other lines, and
  `Line.bulletRuns` counts those of bullets.
* `length_ofSummary`: a summary has a block for each of its lines, and two more for each run of
  bullets, which open and close the list of the run.
-/

namespace MeetingMail

/-- The longest stretches of lines that are all bullets, or that are none. -/
def Line.stretches (ls : List Line) : List (List Line) :=
  ls.splitBy fun l l' => l.isBullet == l'.isBullet

/-- The number of longest runs of bullets that follow each other. -/
def Line.bulletRuns (ls : List Line) : Nat := (stretches ls).countP (·.any isBullet)

/-! ### Stretches -/

namespace Line

theorem all_isBullet_eq_any_of_mem_stretches {ls stretch : List Line} (h : stretch ∈ stretches ls) :
    stretch.all isBullet = stretch.any isBullet := by
  have hchain : stretch.IsChain fun l l' => l.isBullet = l'.isBullet := by
    simpa using List.isChain_of_mem_splitBy h
  have hne : stretch ≠ [] := List.ne_nil_of_mem_splitBy h
  cases stretch with
  | nil => exact absurd rfl hne
  | cons l stretch =>
      -- All lines of a stretch are of the kind of its first.
      have hfirst : ∀ l' ∈ stretch, l.isBullet = l'.isBullet := fun l' => hchain.rel_cons
      cases hl : l.isBullet <;> simp_all

/-- No stretch of bullets stands in front of another one. -/
theorem not_bulletsMeet_of_isChain {stretch : List Line} {others : List (List Line)}
    (h : (stretch :: others).IsChain fun s s' =>
      ∃ hs hs', ((s.getLast hs).isBullet == (s'.head hs').isBullet) = false) :
    ¬ BulletsMeet stretch others.flatten := by
  rintro ⟨⟨t, hlast⟩, t', hfirst⟩
  cases others with
  | nil => cases hfirst
  | cons next others =>
      obtain ⟨⟨hs, hs', hapart⟩, -⟩ := List.isChain_cons_cons.mp h
      rw [List.flatten_cons, List.head?_append_of_ne_nil _ hs'] at hfirst
      rw [List.getLast?_eq_some_getLast hs, Option.some.injEq] at hlast
      rw [List.head?_eq_some_head hs', Option.some.injEq] at hfirst
      rw [hlast, hfirst] at hapart
      cases hapart

end Line

/-! ### Wrappers -/

namespace ListState

theorem countP_isWrapper_inside {ls : List Line} (h : ls.all Line.isBullet = true) :
    (inside.blocks ls).countP Block.isWrapper = 1 := by
  induction ls with
  | nil => rfl
  | cons l ls ih =>
      rw [List.all_cons, Bool.and_eq_true] at h
      cases l with
      | bullet t => exact ih h.2
      | blank | heading _ _ | paragraph _ => cases h.1

theorem countP_isWrapper_outside {ls : List Line} (h : ls.any Line.isBullet = false) :
    (outside.blocks ls).countP Block.isWrapper = 0 := by
  induction ls with
  | nil => rfl
  | cons l ls ih =>
      rw [List.any_cons, Bool.or_eq_false_iff] at h
      cases l with
      | bullet t => cases h.1
      | blank | heading _ _ | paragraph _ => exact ih h.2

/-- A stretch of bullets is wrapped once, and a stretch of other lines is not wrapped. -/
theorem countP_isWrapper_stretch {stretch : List Line} (hne : stretch ≠ [])
    (h : stretch.all Line.isBullet = stretch.any Line.isBullet) :
    (outside.blocks stretch).countP Block.isWrapper
      = if stretch.any Line.isBullet then 2 else 0 := by
  cases hany : stretch.any Line.isBullet with
  | false => exact countP_isWrapper_outside hany
  | true =>
      obtain ⟨l, ls, rfl⟩ := List.exists_cons_of_ne_nil hne
      have hall := h.trans hany
      cases l with
      | bullet t =>
          rw [blocks_outside_bullet, List.countP_cons, countP_isWrapper_inside hall]
          rfl
      | blank | heading _ _ | paragraph _ => cases hall

theorem countP_isWrapper_flatten {stretches : List (List Line)}
    (hstretch : ∀ stretch ∈ stretches, stretch ≠ [] ∧
      stretch.all Line.isBullet = stretch.any Line.isBullet)
    (hchain : stretches.IsChain fun s s' =>
      ∃ hs hs', ((s.getLast hs).isBullet == (s'.head hs').isBullet) = false) :
    (outside.blocks stretches.flatten).countP Block.isWrapper
      = 2 * stretches.countP (·.any Line.isBullet) := by
  induction stretches with
  | nil => rfl
  | cons stretch others ih =>
      obtain ⟨⟨hne, hall⟩, hothers⟩ := List.forall_mem_cons.mp hstretch
      have hseam := Line.not_bulletsMeet_of_isChain hchain
      rw [List.flatten_cons, blocks_outside_append, if_neg hseam, List.countP_append,
        countP_isWrapper_stretch hne hall, ih hothers hchain.tail, List.countP_cons]
      split <;> omega

end ListState

/-! ### Blocks counted -/

namespace Block

theorem length_ofLines (ls : List Line) :
    (ofLines ls).length = ls.length + 2 * Line.bulletRuns ls := by
  have hlines : (ofLines ls).countP (fun b => ¬ b.isWrapper = true) = ls.length := by
    simp only [Bool.not_eq_true, Bool.decide_eq_false]
    rw [List.countP_eq_length_filter, ofLines, ListState.filter_blocks, List.length_map]
  have hwrappers : (ofLines ls).countP isWrapper = 2 * Line.bulletRuns ls := by
    have hapart := List.isChain_getLast_head_splitBy
      (fun l l' : Line => l.isBullet == l'.isBullet) ls
    conv => lhs; rw [← List.flatten_splitBy (fun l l' => l.isBullet == l'.isBullet) ls]
    refine ListState.countP_isWrapper_flatten (fun stretch hstretch => ?_) hapart
    exact ⟨List.ne_nil_of_mem_splitBy hstretch, Line.all_isBullet_eq_any_of_mem_stretches hstretch⟩
  rw [List.length_eq_countP_add_countP isWrapper, hwrappers, hlines, Nat.add_comm]

theorem length_ofSummary (content : Text) :
    (ofSummary content).length
      = 1 + content.count '\n' + 2 * Line.bulletRuns (Line.parse content) := by
  rw [ofSummary, length_ofLines, Line.parse, Line.trimmedLines, List.length_map, List.length_map,
    Text.length_lines, Nat.add_comm 1]

example : Line.bulletRuns (Line.parse "* a\n* b\n\n* c\n*".toList) = 2 := by decide

end Block

end MeetingMail
