import Mathlib.Data.List.DropRight
import MeetingMail.Text.Blank

/-!
The lines of a text, and the blanks at its ends.

* `lines_unlines`: lines that hold no line feed are found again in the text that joins them.
* `IsTrimmed` says of a text that it neither begins nor ends with a blank. `isTrimmed_trim` and
  `trim_of_isTrimmed`: trimming leads to such texts and leaves them alone.
* `exists_trim` and `trim_eq_of_isTrimmed`: a trimmed text is what stands between the blanks at the
  two ends, and it is the only one.
-/

namespace MeetingMail.Text

/-! ### Lines -/

theorem lines_eq_splitOn (t : Text) : lines t = t.splitOn '\n' := by
  induction t with
  | nil => rfl
  | cons c t ih =>
      simp only [lines, List.splitOn_cons_eq_if_modifyHead, beq_iff_eq, ih]

/-- A text is put together again from its lines. -/
theorem unlines_lines (t : Text) : unlines (lines t) = t := by
  rw [lines_eq_splitOn, unlines, List.intercalate_splitOn]

theorem length_lines (t : Text) : (lines t).length = t.count '\n' + 1 := by
  induction t with
  | nil => rfl
  | cons c t ih =>
      by_cases hc : c = '\n'
      · subst hc
        rw [lines_newline_cons, List.length_cons, ih, List.count_cons_self]
      · rw [lines_cons_of_ne hc, List.length_modifyHead, ih, List.count_cons_of_ne hc]

/-- Lines are read back from the text that joins them. -/
theorem lines_unlines {ls : List Text} (hne : ls ≠ []) (h : ∀ l ∈ ls, '\n' ∉ l) :
    lines (unlines ls) = ls := by
  rw [lines_eq_splitOn, unlines, List.splitOn_intercalate '\n' h hne]

theorem newline_notMem_of_mem_lines {t l : Text} (h : l ∈ lines t) : '\n' ∉ l := by
  induction t generalizing l with
  | nil =>
      rw [lines_nil, List.mem_singleton] at h
      subst h
      exact List.not_mem_nil
  | cons c t ih =>
      by_cases hc : c = '\n'
      · subst hc
        rw [lines_newline_cons, List.mem_cons] at h
        obtain rfl | h := h
        · exact List.not_mem_nil
        · exact ih h
      · obtain ⟨first, others, hlines⟩ := List.exists_cons_of_ne_nil (lines_ne_nil t)
        rw [lines_cons_of_ne hc, hlines, List.modifyHead_cons, List.mem_cons] at h
        obtain rfl | h := h
        · have hfirst : '\n' ∉ first := ih (hlines ▸ List.mem_cons_self)
          simp [hfirst, Ne.symm hc]
        · exact ih (hlines ▸ List.mem_cons_of_mem first h)

/-! ### Blanks at the ends -/

/-- A text that neither begins nor ends with a blank. -/
structure IsTrimmed (t : Text) : Prop where
  head : ∀ c ∈ t.head?, isBlank c = false
  last : ∀ c ∈ t.getLast?, isBlank c = false

theorem isTrimmed_iff (t : Text) :
    t.IsTrimmed ↔ t.head?.all (!isBlank ·) = true ∧ t.getLast?.all (!isBlank ·) = true := by
  simp only [Option.all_eq_true, Bool.not_eq_true']
  exact ⟨fun h => ⟨h.head, h.last⟩, fun h => ⟨h.1, h.2⟩⟩

instance (t : Text) : Decidable t.IsTrimmed := decidable_of_iff' _ t.isTrimmed_iff

theorem trimStart_isSuffix (t : Text) : t.trimStart <:+ t := List.dropWhile_suffix isBlank

theorem trimEnd_isPrefix (t : Text) : t.trimEnd <+: t := List.rdropWhile_prefix isBlank t

theorem head?_trimStart {t : Text} {c : Char} (h : c ∈ t.trimStart.head?) : isBlank c = false := by
  have hnot := List.head?_dropWhile_not isBlank t
  rw [trimStart, Option.mem_def] at h
  rw [h] at hnot
  exact hnot

theorem trimStart_of_head? {t : Text} (h : ∀ c ∈ t.head?, isBlank c = false) :
    t.trimStart = t := by
  cases t with
  | nil => rfl
  | cons c t => exact List.dropWhile_cons_of_neg (by simp [h c rfl])

theorem getLast?_trimEnd {t : Text} {c : Char} (h : c ∈ t.trimEnd.getLast?) :
    isBlank c = false := by
  rw [trimEnd, List.getLast?_reverse] at h
  have hnot := List.head?_dropWhile_not isBlank t.reverse
  rw [Option.mem_def.mp h] at hnot
  exact hnot

theorem trimEnd_of_getLast? {t : Text} (h : ∀ c ∈ t.getLast?, isBlank c = false) :
    t.trimEnd = t := by
  have hrev : trimStart t.reverse = t.reverse := by
    refine trimStart_of_head? fun c hc => h c ?_
    rwa [List.head?_reverse] at hc
  rw [trimEnd, ← trimStart, hrev, List.reverse_reverse]

/-- Trimming a text takes the blanks away from both of its ends. -/
theorem isTrimmed_trim (t : Text) : t.trim.IsTrimmed where
  head c hc := by
    -- What is left after the end has been trimmed begins as it did before.
    obtain ⟨gone, happend⟩ := trimEnd_isPrefix t.trimStart
    refine head?_trimStart (t := t) ?_
    rw [← happend]
    exact List.mem_head?_append_of_mem_head? hc
  last c hc := getLast?_trimEnd hc

theorem trim_of_isTrimmed {t : Text} (h : t.IsTrimmed) : t.trim = t := by
  rw [trim, trimStart_of_head? h.head, trimEnd_of_getLast? h.last]

/-- A trimmed text stays so behind a text that begins with no blank. -/
theorem IsTrimmed.append {s t : Text} (ht : t.IsTrimmed) (hne : t ≠ [])
    (hs : ∀ c ∈ s.head?, isBlank c = false) : IsTrimmed (s ++ t) where
  head c hc := by
    cases s with
    | nil => exact ht.head c hc
    | cons d s => exact hs c hc
  last c hc := by
    rw [List.getLast?_append_of_ne_nil _ hne] at hc
    exact ht.last c hc

theorem mem_of_mem_trimStart {t : Text} {c : Char} (h : c ∈ t.trimStart) : c ∈ t :=
  (trimStart_isSuffix t).subset h

theorem mem_of_mem_trim {t : Text} {c : Char} (h : c ∈ t.trim) : c ∈ t :=
  mem_of_mem_trimStart ((trimEnd_isPrefix t.trimStart).subset h)

/-! ### Blanks around a text -/

/-- A text that holds nothing but blanks. -/
def AllBlank (t : Text) : Prop := ∀ c ∈ t, isBlank c = true

instance (t : Text) : Decidable t.AllBlank := List.decidableBAll (isBlank · = true) t

theorem AllBlank.nil : AllBlank [] := List.forall_mem_nil _

theorem AllBlank.append {s t : Text} (hs : s.AllBlank) (ht : t.AllBlank) : AllBlank (s ++ t) :=
  List.forall_mem_append.mpr ⟨hs, ht⟩

theorem AllBlank.filter_eq_nil {b : Text} (hb : b.AllBlank) : b.filter (!isBlank ·) = [] :=
  List.filter_eq_nil_iff.mpr fun c hc => by simp [hb c hc]

theorem AllBlank.trimStart_append {b : Text} (hb : b.AllBlank) (t : Text) :
    trimStart (b ++ t) = trimStart t :=
  List.dropWhile_append_of_pos hb

theorem AllBlank.trimEnd_append {b : Text} (hb : b.AllBlank) (t : Text) :
    trimEnd (t ++ b) = trimEnd t := by
  have hrev : ∀ c ∈ b.reverse, isBlank c = true := fun c hc => hb c (List.mem_reverse.mp hc)
  rw [trimEnd, List.reverse_append, List.dropWhile_append_of_pos hrev]
  rfl

theorem AllBlank.trimStart_eq_nil {b : Text} (hb : b.AllBlank) : b.trimStart = [] :=
  List.dropWhile_eq_nil_iff.mpr hb

theorem exists_trimStart (t : Text) : ∃ b, AllBlank b ∧ t = b ++ t.trimStart :=
  ⟨t.takeWhile isBlank, fun _ => List.mem_takeWhile_imp, List.takeWhile_append_dropWhile.symm⟩

theorem exists_trimEnd (t : Text) : ∃ b, AllBlank b ∧ t = t.trimEnd ++ b := by
  obtain ⟨b, hb, ht⟩ := exists_trimStart t.reverse
  refine ⟨b.reverse, fun c hc => hb c (List.mem_reverse.mp hc), ?_⟩
  rw [trimEnd, ← trimStart, ← List.reverse_append, ← ht, List.reverse_reverse]

/-- Trimming takes away blanks only. -/
theorem exists_trim (t : Text) :
    ∃ left right, AllBlank left ∧ AllBlank right ∧ t = left ++ t.trim ++ right := by
  obtain ⟨left, hleft, ht⟩ := exists_trimStart t
  obtain ⟨right, hright, hstart⟩ := exists_trimEnd t.trimStart
  refine ⟨left, right, hleft, hright, ?_⟩
  rw [trim, List.append_assoc, ← hstart, ← ht]

/-- A trimmed text is what trimming leaves of it and any blanks around it. -/
theorem trim_eq_of_isTrimmed {left t right : Text} (hleft : left.AllBlank)
    (hright : right.AllBlank) (ht : t.IsTrimmed) : trim (left ++ t ++ right) = t := by
  rw [trim, List.append_assoc, hleft.trimStart_append]
  cases t with
  | nil => rw [List.nil_append, hright.trimStart_eq_nil]; rfl
  | cons c t =>
      rw [trimStart_of_head? (t := c :: t ++ right) ht.head, hright.trimEnd_append,
        trimEnd_of_getLast? ht.last]

/-- Blanks around a text make no difference to what trimming leaves. -/
theorem trim_append_append {left right : Text} (hleft : left.AllBlank) (hright : right.AllBlank)
    (t : Text) : trim (left ++ t ++ right) = trim t := by
  obtain ⟨b, e, hb, he, ht⟩ := exists_trim t
  have hsplit : left ++ t ++ right = (left ++ b) ++ trim t ++ (e ++ right) := by
    conv => lhs; rw [ht]
    simp only [List.append_assoc]
  rw [hsplit, trim_eq_of_isTrimmed (hleft.append hb) (he.append hright) t.isTrimmed_trim]

theorem allBlank_of_trim_eq_nil {t : Text} (h : t.trim = []) : t.AllBlank := by
  obtain ⟨left, right, hleft, hright, ht⟩ := exists_trim t
  rw [ht, h, List.append_nil]
  exact hleft.append hright

/-- Trimming takes a text away that is all blank. -/
theorem trim_append_of_trim_eq_nil {t : Text} (h : t.trim = []) (s : Text) :
    trim (s ++ t) = trim s :=
  trim_append_append .nil (allBlank_of_trim_eq_nil h) s

/-- Trimming only takes away the end of a text that is not all blank, if it is behind a text that
begins with no blank. -/
theorem exists_trim_append {s t : Text} (hne : s ≠ []) (hs : ∀ c ∈ s.head?, isBlank c = false)
    (h : t.trim ≠ []) : ∃ gap, AllBlank gap ∧ trim (s ++ t) = s ++ gap ++ t.trim := by
  obtain ⟨gap, right, hgap, hright, ht⟩ := exists_trim t
  have hhead : ∀ c ∈ (s ++ gap).head?, isBlank c = false := by
    rwa [List.head?_append_of_ne_nil _ hne]
  have hsplit : s ++ t = [] ++ (s ++ gap ++ t.trim) ++ right := by
    conv => lhs; rw [ht]
    simp only [List.nil_append, List.append_assoc]
  refine ⟨gap, hgap, ?_⟩
  rw [hsplit, trim_eq_of_isTrimmed .nil hright (t.isTrimmed_trim.append h hhead)]

end MeetingMail.Text
