import MeetingMail.Proofs.Summary.Sections

/-!
Blocks that are built step by step, with the end of a list at any time.

* A `Draft` is the state together with all blocks so far, and `Draft.performAll` adds lines and ends
  lists in any order.
* `EndsInList` says by the blocks alone whether a list is open. `EachInPlace` and `ListsStarted` say
  where blocks may stand in unfinished lists.
* `sound_performAll`: the state is what the blocks say, and each of them is in its place.
* `completes_performAll`: the end of the list that may be open leaves complete lists only.
* `Draft.performAll_inStep` puts this together.
-/

namespace MeetingMail

/-- What can be done to blocks that are being built. -/
inductive Action where
  | line (l : Line)
  | close
  deriving DecidableEq

namespace Action

/-- The new state and the blocks that are added. -/
def answer (s : ListState) : Action → ListState × List Block
  | .line l => s.step l
  | .close => s.close

def line? : Action → Option Line
  | .line l => some l
  | .close => none

end Action

/-- Blocks that are being built. -/
structure Draft where
  state : ListState
  blocks : List Block
  deriving DecidableEq

namespace Draft

def empty : Draft := ⟨.outside, []⟩

def perform (d : Draft) (a : Action) : Draft :=
  ⟨(a.answer d.state).1, d.blocks ++ (a.answer d.state).2⟩

def performAll (d : Draft) (as : List Action) : Draft := as.foldl perform d

end Draft

/-! ### Blocks with unfinished lists -/

/-- Holds if a list is open at the end: the last wrapper opens one. -/
def EndsInList (bs : List Block) : Prop := (bs.filter (·.isWrapper)).getLast? = some .listOpen

/-- Whether a block stands inside a list. -/
def Block.isInner : Block → Bool
  | .item _ | .listClose => true
  | _ => false

/-- Blocks of which the inner ones stand in open lists and all others do not. -/
def EachInPlace (bs : List Block) : Prop :=
  ∀ before b after, bs = before ++ b :: after → (EndsInList before ↔ b.isInner = true)

/-- Blocks in which an item is right behind the start of each list. -/
def ListsStarted (bs : List Block) : Prop :=
  ∀ before after, bs = before ++ .listOpen :: after → ∃ e, after.head? = some (.item e)

/-- The blocks up to a new last one end where the old ones do, or in front of it. -/
theorem concat_eq_append_cons {bs before after : List Block} {b c : Block}
    (h : bs ++ [c] = before ++ b :: after) :
    before = bs ∧ b = c ∧ after = [] ∨ ∃ m, bs = before ++ b :: m ∧ after = m ++ [c] := by
  obtain rfl | ⟨m, x, rfl⟩ := List.eq_nil_or_concat' after
  · obtain ⟨rfl, hlast⟩ := List.append_inj' h rfl
    exact .inl ⟨rfl, (List.singleton_inj.mp hlast).symm, rfl⟩
  · rw [← List.cons_append, ← List.append_assoc] at h
    obtain ⟨rfl, hlast⟩ := List.append_inj' h rfl
    exact .inr ⟨m, rfl, by rw [List.singleton_inj.mp hlast]⟩

section Concat

variable {bs : List Block} {b : Block}

theorem endsInList_concat :
    EndsInList (bs ++ [b]) ↔ b = .listOpen ∨ b.isWrapper = false ∧ EndsInList bs := by
  cases b <;> simp [EndsInList, Block.isWrapper]

theorem EachInPlace.concat (h : EachInPlace bs) (hb : EndsInList bs ↔ b.isInner = true) :
    EachInPlace (bs ++ [b]) := by
  intro before c after heq
  obtain ⟨rfl, rfl, -⟩ | ⟨m, rfl, -⟩ := concat_eq_append_cons heq
  · exact hb
  · exact h before c m rfl

theorem ListsStarted.concat (h : ListsStarted bs) (hb : b ≠ .listOpen) :
    ListsStarted (bs ++ [b]) := by
  intro before after heq
  obtain ⟨-, rfl, -⟩ | ⟨m, rfl, rfl⟩ := concat_eq_append_cons heq
  · exact absurd rfl hb
  · obtain ⟨e, he⟩ := h before m rfl
    exact ⟨e, List.mem_head?_append_of_mem_head? he⟩

theorem ListsStarted.concat_list (h : ListsStarted bs) (e : Escaped) :
    ListsStarted (bs ++ [.listOpen] ++ [.item e]) := by
  intro before after heq
  obtain ⟨-, hitem, -⟩ | ⟨m, hopen, rfl⟩ := concat_eq_append_cons heq
  · cases hitem
  · obtain ⟨-, -, rfl⟩ | ⟨m, rfl, rfl⟩ := concat_eq_append_cons hopen
    · exact ⟨e, rfl⟩
    · obtain ⟨e, he⟩ := h before m rfl
      refine ⟨e, ?_⟩
      rw [List.append_assoc]
      exact List.mem_head?_append_of_mem_head? he

end Concat

/-! ### One action -/

namespace Draft

/-- A state that is what the blocks say, and blocks in their places. -/
structure Sound (d : Draft) : Prop where
  state_iff : d.state = .inside ↔ EndsInList d.blocks
  inPlace : EachInPlace d.blocks
  started : ListsStarted d.blocks

variable {bs : List Block} {d : Draft}

theorem sound_empty : empty.Sound where
  state_iff := by simp [empty, EndsInList]
  inPlace before b after h := by simp [empty] at h
  started before after h := by simp [empty] at h

theorem Sound.not_endsInList (h : Sound ⟨.outside, bs⟩) : ¬ EndsInList bs := by
  intro hopen
  cases h.state_iff.mpr hopen

/-- Outside of lists any block may follow that is neither inner nor a wrapper. -/
theorem Sound.concat (h : Sound ⟨.outside, bs⟩) {b : Block} (hinner : b.isInner = false)
    (hwrapper : b.isWrapper = false) : Sound ⟨.outside, bs ++ [b]⟩ where
  state_iff := by
    have hopen : b ≠ .listOpen := by
      rintro rfl
      cases hwrapper
    simp [endsInList_concat, hopen, h.not_endsInList]
  inPlace := h.inPlace.concat (by simp [hinner, h.not_endsInList])
  started := h.started.concat (by rintro rfl; cases hwrapper)

/-- Inside a list any item may follow. -/
theorem Sound.concat_item (h : Sound ⟨.inside, bs⟩) (e : Escaped) :
    Sound ⟨.inside, bs ++ [.item e]⟩ where
  state_iff := by simp [endsInList_concat, Block.isWrapper, h.state_iff.mp rfl]
  inPlace := h.inPlace.concat (by simp [Block.isInner, h.state_iff.mp rfl])
  started := h.started.concat (by simp)

theorem Sound.concat_list (h : Sound ⟨.outside, bs⟩) (e : Escaped) :
    Sound ⟨.inside, bs ++ [.listOpen] ++ [.item e]⟩ where
  state_iff := iff_of_true rfl
    (endsInList_concat.mpr (.inr ⟨rfl, endsInList_concat.mpr (.inl rfl)⟩))
  inPlace := by
    have hopen := h.inPlace.concat (b := .listOpen) (by simp [Block.isInner, h.not_endsInList])
    exact hopen.concat (by simp [endsInList_concat, Block.isInner])
  started := h.started.concat_list e

theorem Sound.close (h : d.Sound) : (d.perform .close).Sound := by
  obtain ⟨s, bs⟩ := d
  cases s with
  | outside => simpa [perform, Action.answer, ListState.close, ListState.closing] using h
  | inside =>
      have hopen : EndsInList bs := h.state_iff.mp rfl
      exact ⟨by simp [perform, Action.answer, ListState.close, ListState.closing,
          endsInList_concat, Block.isWrapper],
        h.inPlace.concat (by simp [Block.isInner, hopen]), h.started.concat (by simp)⟩

/-- A line that is no bullet ends the list that may be open, and adds its own block behind it. -/
theorem perform_line_of_not_inner (d : Draft) {l : Line} (hl : l.block.isInner = false) :
    d.perform (.line l) = ⟨.outside, (d.perform .close).blocks ++ [l.block]⟩ := by
  obtain ⟨s, bs⟩ := d
  cases l with
  | bullet t => cases hl
  | blank | heading level t | paragraph t =>
      simp only [perform, List.append_assoc]
      cases s <;> rfl

theorem Sound.line (h : d.Sound) (l : Line) : (d.perform (.line l)).Sound := by
  cases l with
  | bullet t =>
      obtain ⟨s, bs⟩ := d
      cases s with
      | outside =>
          have hlist := h.concat_list (.of t)
          rwa [List.append_assoc] at hlist
      | inside => exact h.concat_item (.of t)
  | blank | heading level t | paragraph t =>
      rw [perform_line_of_not_inner d rfl]
      exact h.close.concat rfl rfl

theorem Sound.perform (h : d.Sound) (a : Action) : (d.perform a).Sound := by
  cases a with
  | line l => exact h.line l
  | close => exact h.close

/-- Without wrappers a line adds its block, and the end of a list nothing. -/
theorem filter_perform (d : Draft) (a : Action) :
    (d.perform a).blocks.filter (!·.isWrapper) =
      d.blocks.filter (!·.isWrapper) ++ (a.line?.map Line.block).toList := by
  cases a with
  | line l =>
      simp [Draft.perform, Action.answer, ListState.step, Action.line?, l.isWrapper_block]
  | close => simp [Draft.perform, Action.answer, ListState.close, Action.line?]

/-! ### Any number of actions -/

theorem Sound.performAll (h : d.Sound) (as : List Action) : (d.performAll as).Sound := by
  induction as generalizing d with
  | nil => exact h
  | cons a as ih => exact ih (h.perform a)

theorem filter_performAll (d : Draft) (as : List Action) :
    (d.performAll as).blocks.filter (!·.isWrapper) =
      d.blocks.filter (!·.isWrapper) ++ (as.filterMap Action.line?).map Line.block := by
  induction as generalizing d with
  | nil => simp [Draft.performAll]
  | cons a as ih =>
      rw [Draft.performAll, List.foldl_cons, ← Draft.performAll, ih, filter_perform,
        List.append_assoc]
      cases a <;> rfl

/-- Actions only add blocks, and which blocks they add depends on the state alone. -/
theorem exists_performAll_eq (s : ListState) (as : List Action) :
    ∃ s' added, ∀ bs, performAll ⟨s, bs⟩ as = ⟨s', bs ++ added⟩ := by
  induction as generalizing s with
  | nil => exact ⟨s, [], fun bs => by simp [Draft.performAll]⟩
  | cons a as ih =>
      obtain ⟨s', added, hadded⟩ := ih (a.answer s).1
      refine ⟨s', (a.answer s).2 ++ added, fun bs => ?_⟩
      rw [Draft.performAll, List.foldl_cons, ← List.append_assoc]
      exact hadded _

/-- What actions add completes the state in front of them, once the list that may be open ends. -/
theorem completes_performAll (s : ListState) (bs : List Block) (as : List Action) :
    ∃ added, (performAll ⟨s, bs⟩ as).blocks = bs ++ added ∧
      s.Completes (added ++ (performAll ⟨s, bs⟩ as).state.closing) := by
  induction as generalizing s bs with
  | nil => exact ⟨[], (List.append_nil bs).symm, s.completes_blocks []⟩
  | cons a as ih =>
      obtain ⟨added, hadded, hcompletes⟩ := ih (a.answer s).1 (bs ++ (a.answer s).2)
      refine ⟨(a.answer s).2 ++ added, hadded.trans (List.append_assoc ..), ?_⟩
      rw [List.append_assoc]
      cases a with
      | line l =>
          have hstep := hcompletes.step s
          rwa [List.append_cons] at hstep
      | close => exact hcompletes.closing_append s

/-- After any actions the state says whether the last wrapper opens a list, and each block is in its
place. The end of the list that may be open makes the blocks sections, which are complete lists and
other blocks. Without wrappers the blocks show the lines, in their order, and actions only add to
the blocks what depends on none of them. -/
theorem performAll_inStep (as : List Action) :
    ((empty.performAll as).state = .inside ↔ EndsInList (empty.performAll as).blocks) ∧
      EachInPlace (empty.performAll as).blocks ∧ ListsStarted (empty.performAll as).blocks ∧
      (∃ ss : List Section,
        (empty.performAll (as ++ [.close])).blocks = ss.flatMap Section.blocks) ∧
      List.Forall₂ Line.Shown (as.filterMap Action.line?)
        ((empty.performAll as).blocks.filter (!·.isWrapper)) ∧
      ∀ s, ∃ s' added, ∀ bs, performAll ⟨s, bs⟩ as = ⟨s', bs ++ added⟩ := by
  have hsound := sound_empty.performAll as
  refine ⟨hsound.state_iff, hsound.inPlace, hsound.started, ?_, ?_,
    fun s => exists_performAll_eq s as⟩
  · obtain ⟨added, hadded, ss, hss⟩ := completes_performAll .outside [] as
    refine ⟨ss, ?_⟩
    rw [performAll, List.foldl_concat, ← hss]
    exact congrArg (· ++ _) hadded
  · rw [filter_performAll, empty, List.filter_nil, List.nil_append, List.forall₂_map_right_iff,
      List.forall₂_same]
    exact fun l _ => l.shown_block

-- Lists can stand right behind each other here, unlike in what a summary becomes.
example (t u : Text) :
    empty.performAll [.line (.bullet t), .close, .line (.bullet u)] =
      ⟨.inside, [.listOpen, .item (.of t), .listClose, .listOpen, .item (.of u)]⟩ := rfl

end Draft

end MeetingMail
