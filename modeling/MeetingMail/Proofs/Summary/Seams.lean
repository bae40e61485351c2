import MeetingMail.Proofs.Summary.Sections

/-!
Summaries put together.

* `ListState.blocks_append` cuts a run over lines in two: the second half goes on from the state
  that the first half leaves.
* `Text.lines_append_newline`: a line feed between two texts keeps their lines apart.
* `ofLines_append`: the blocks of two halves are those of the first and those of the second. Only
  where a bullet stands on both sides of the seam do the last list of the first half and the first
  list of the second become one.
-/

namespace MeetingMail

/-- Holds if bullets stand on both sides of the seam between lines. -/
def Line.BulletsMeet (xs ys : List Line) : Prop :=
  (∃ t, xs.getLast? = some (.bullet t)) ∧ ∃ t, ys.head? = some (.bullet t)

def Line.isBullet : Line → Bool
  | .bullet _ => true
  | _ => false

theorem Line.any_isBullet_iff (l : Option Line) :
    l.any isBullet = true ↔ ∃ t, l = some (.bullet t) := by
  constructor
  · intro h
    obtain ⟨l, rfl, hl⟩ := Option.any_eq_true _ _ |>.mp h
    cases l with
    | bullet t => exact ⟨t, rfl⟩
    | blank | heading _ _ | paragraph _ => cases hl
  · rintro ⟨t, rfl⟩
    rfl

instance (xs ys : List Line) : Decidable (Line.BulletsMeet xs ys) :=
  decidable_of_iff (xs.getLast?.any Line.isBullet = true ∧ ys.head?.any Line.isBullet = true) <| by
    rw [Line.any_isBullet_iff, Line.any_isBullet_iff, Line.BulletsMeet]

/-! ### Runs cut in two -/

namespace ListState

/-- The state that lines leave. -/
def afterAll (s : ListState) (ls : List Line) : ListState := ls.foldl (fun s l => (s.step l).1) s

/-- The blocks that lines add as long as the input goes on. -/
def added : ListState → List Line → List Block
  | _, [] => []
  | s, l :: ls => (s.step l).2 ++ (s.step l).1.added ls

theorem blocks_append (s : ListState) (xs ys : List Line) :
    s.blocks (xs ++ ys) = s.added xs ++ (s.afterAll xs).blocks ys := by
  induction xs generalizing s with
  | nil => rfl
  | cons l xs ih => rw [List.cons_append, blocks, ih, added, List.append_assoc]; rfl

/-- At the end of the input a list that is open ends. -/
theorem blocks_eq_added_append (s : ListState) (ls : List Line) :
    s.blocks ls = s.added ls ++ (s.afterAll ls).closing := by
  have happend := s.blocks_append ls []
  rwa [List.append_nil, blocks_nil] at happend

theorem afterAll_concat (s : ListState) (ls : List Line) (l : Line) :
    s.afterAll (ls ++ [l]) = after l := by
  rw [afterAll, List.foldl_concat]
  rfl

/-- A list is open behind lines if and only if the last of them is a bullet. -/
theorem afterAll_outside (ls : List Line) :
    (outside.afterAll ls = .inside ∧ ∃ t, ls.getLast? = some (.bullet t)) ∨
      (outside.afterAll ls = .outside ∧ ∀ t, ls.getLast? ≠ some (.bullet t)) := by
  obtain rfl | ⟨ls, l, rfl⟩ := List.eq_nil_or_concat' ls
  · exact .inr ⟨rfl, fun t h => by cases h⟩
  · rw [afterAll_concat, List.getLast?_concat]
    cases l with
    | bullet t => exact .inl ⟨rfl, t, rfl⟩
    | blank | heading _ _ | paragraph _ => exact .inr ⟨rfl, fun t h => by cases h⟩

/-- In front of a bullet a list opens, unless one is open. -/
theorem blocks_outside_bullet (t : Text) (ls : List Line) :
    outside.blocks (.bullet t :: ls) = .listOpen :: inside.blocks (.bullet t :: ls) := rfl

/-- The list that stays open at the end of one half goes on in the other half, or it ends just as
it does at the end of the input. -/
theorem blocks_outside_append (xs ys : List Line) :
    outside.blocks (xs ++ ys) =
      if Line.BulletsMeet xs ys then (outside.blocks xs).dropLast ++ (outside.blocks ys).tail
      else outside.blocks xs ++ outside.blocks ys := by
  rw [blocks_append, blocks_eq_added_append outside xs]
  obtain ⟨hafter, hlast⟩ | ⟨hafter, hlast⟩ := afterAll_outside xs
  · by_cases hfirst : ∃ t, ys.head? = some (.bullet t)
    · rw [if_pos ⟨hlast, hfirst⟩, hafter]
      obtain ⟨t, ht⟩ := hfirst
      obtain ⟨ys, rfl⟩ := List.head?_eq_some_iff.mp ht
      rw [blocks_outside_bullet, closing, List.dropLast_concat, List.tail_cons]
    · rw [if_neg (fun hmeet => hfirst hmeet.2), hafter,
        blocks_inside_of_not_bullet (not_exists.mp hfirst), closing, List.append_assoc]
      rfl
  · rw [if_neg (fun hmeet => hmeet.1.elim hlast), hafter, closing, List.append_nil]

end ListState

/-! ### Lists at the ends of blocks -/

namespace Block

theorem getLast?_ofLines_eq_listClose_iff (ls : List Line) :
    (ofLines ls).getLast? = some .listClose ↔ ∃ t, ls.getLast? = some (.bullet t) := by
  obtain rfl | ⟨ls, l, rfl⟩ := List.eq_nil_or_concat' ls
  · simp [ofLines, ListState.closing]
  · rw [ofLines, ListState.blocks_append, ListState.blocks_cons, List.getLast?_concat]
    cases l with
    | bullet t => simp [ListState.after, ListState.closing]
    | blank | heading _ _ | paragraph _ => simp [ListState.after, ListState.closing, Line.block]

theorem head?_ofLines_eq_listOpen_iff (ls : List Line) :
    (ofLines ls).head? = some .listOpen ↔ ∃ t, ls.head? = some (.bullet t) := by
  cases ls with
  | nil => simp [ofLines, ListState.closing]
  | cons l ls =>
      rw [ofLines, ListState.blocks_cons]
      cases l with
      | bullet t => simp [ListState.before]
      | blank | heading _ _ | paragraph _ =>
          simp [ListState.before, ListState.closing, Line.block]

end Block

/-! ### Texts put together -/

theorem Text.lines_append_newline (a b : Text) : lines (a ++ '\n' :: b) = lines a ++ lines b := by
  induction a with
  | nil => exact lines_newline_cons b
  | cons c a ih =>
      rw [List.cons_append]
      by_cases hc : c = '\n'
      · subst hc
        rw [lines_newline_cons, lines_newline_cons, ih, List.cons_append]
      · obtain ⟨first, others, hlines⟩ := List.exists_cons_of_ne_nil (lines_ne_nil a)
        rw [lines_cons_of_ne hc, lines_cons_of_ne hc, ih, hlines]
        rfl

theorem Line.parse_append_newline (a b : Text) : parse (a ++ '\n' :: b) = parse a ++ parse b := by
  rw [parse, trimmedLines, Text.lines_append_newline, List.map_append, List.map_append]
  rfl

namespace Block

/-- The blocks of two halves, one after the other, are the blocks of the whole, but where bullets
meet. There the list that the first half closes last and the list that the second half opens first
are one. -/
theorem ofLines_append :
    (∀ xs ys : List Line,
      ofLines (xs ++ ys) =
        if Line.BulletsMeet xs ys then (ofLines xs).dropLast ++ (ofLines ys).tail
        else ofLines xs ++ ofLines ys) ∧
    (∀ ls, (ofLines ls).getLast? = some .listClose ↔ ∃ t, ls.getLast? = some (.bullet t)) ∧
    (∀ ls, (ofLines ls).head? = some .listOpen ↔ ∃ t, ls.head? = some (.bullet t)) ∧
    (∀ a b, Line.parse (a ++ '\n' :: b) = Line.parse a ++ Line.parse b) ∧
    ∀ a b,
      ofSummary (a ++ '\n' :: b) =
        if Line.BulletsMeet (Line.parse a) (Line.parse b) then
          (ofSummary a).dropLast ++ (ofSummary b).tail
        else ofSummary a ++ ofSummary b := by
  refine ⟨ListState.blocks_outside_append, getLast?_ofLines_eq_listClose_iff,
    head?_ofLines_eq_listOpen_iff, Line.parse_append_newline, fun a b => ?_⟩
  rw [ofSummary, Line.parse_append_newline]
  exact ListState.blocks_outside_append _ _

example : ofSummary ("* a".toList ++ '\n' :: "* b".toList) =
    [.listOpen, .item (.of ['a']), .item (.of ['b']), .listClose] := by
  decide

end Block

end MeetingMail
