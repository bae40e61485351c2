import MeetingMail.Proofs.Toml.Row

/-!
Arrays of strings and integers, as values of a TOML document.

* `IsGap` holds of what may stand between the items of an array: spaces, line ends and comments.
* `SpelledItems` says how the items of an array may be written, with any gaps and with or without a
  comma behind the last one.
* `SpelledItems.isValue`: an array is read back however it is written.
-/

namespace MeetingMail.Toml

/-! ### Gaps -/

/-- A text that is passed over between the items of an array, whatever follows it. -/
def IsGap (g : Text) : Prop := ∀ rest, skipGap (g ++ rest) = skipGap rest

theorem isGap_nil : IsGap [] := fun _ => rfl

theorem IsGap.append {g g' : Text} (h : IsGap g) (h' : IsGap g') : IsGap (g ++ g') := fun rest => by
  rw [List.append_assoc, h, h']

theorem isGap_singleton {c : Char} (h : c ∈ [' ', '\t', '\n']) : IsGap [c] := by
  intro rest
  have hskip : (isSpace c || c == '\n') = true := by
    have hall : ∀ d ∈ [' ', '\t', '\n'], (isSpace d || d == '\n') = true := by simp [isSpace]
    exact hall c h
  rw [List.singleton_append, skipGap.eq_def (c :: rest)]
  exact if_pos hskip

theorem isGap_comment {comment : Text} (h : ∀ c ∈ comment, isPlain c = true) :
    IsGap ('#' :: comment ++ ['\n']) := by
  intro rest
  have hline : ('#' :: comment ++ ['\n'] ++ rest) = '#' :: (comment ++ '\n' :: rest) := by simp
  rw [hline, skipGap.eq_def ('#' :: _)]
  dsimp only
  rw [if_neg (by decide), if_pos (by decide), List.dropWhile_append_of_pos h]
  exact @isGap_singleton '\n' (by decide) rest

theorem skipGap_cons_of_notMem {c : Char} (h : c ∉ [' ', '\t', '#', '\n', '\r']) (t : Text) :
    skipGap (c :: t) = c :: t := by
  simp only [List.mem_cons, List.not_mem_nil, or_false, not_or] at h
  obtain ⟨hspace, htab, hcomment, hnewline, hreturn⟩ := h
  rw [skipGap.eq_def]
  dsimp only
  rw [if_neg (by simp [isSpace, hspace, htab, hnewline]), if_neg (by simpa using hcomment)]
  split
  · rename_i heq
    exact absurd rfl hreturn
  · rfl

/-- A word ends where a gap begins. -/
theorem IsGap.atWordEnd {g : Text} (h : IsGap g) {rest : Text} (hrest : AtWordEnd rest) :
    AtWordEnd (g ++ rest) := by
  cases g with
  | nil => exact hrest
  | cons c g =>
      intro d hd
      obtain rfl : c = d := Option.some.inj hd
      refine endsWord_of_mem ?_
      by_contra hc
      have hskip := h []
      rw [List.cons_append, skipGap_cons_of_notMem hc, skipGap] at hskip
      cases hskip

/-! ### Items -/

/-- The items of an array up to its closing bracket. -/
inductive SpelledItems : List Scalar → Text → Prop where
  | nil {g : Text} (hg : IsGap g) : SpelledItems [] (g ++ [']'])
  | last {g w g' : Text} {v : Scalar} (hg : IsGap g) (hv : v.Spelled w) (hg' : IsGap g') :
      SpelledItems [v] (g ++ w ++ g' ++ [']'])
  | cons {g w g' : Text} {v : Scalar} {vs : List Scalar} {t : Text} (hg : IsGap g)
      (hv : v.Spelled w) (hg' : IsGap g') (ht : SpelledItems vs t) :
      SpelledItems (v :: vs) (g ++ w ++ g' ++ ',' :: t)

/-- Every list of values can be written as an array. -/
theorem exists_spelledItems (vs : List Scalar) : ∃ t, SpelledItems vs t := by
  induction vs with
  | nil => exact ⟨_, .nil isGap_nil⟩
  | cons v vs ih =>
      obtain ⟨w, hw⟩ := v.exists_spelled
      obtain ⟨t, ht⟩ := ih
      exact ⟨_, .cons isGap_nil hw isGap_nil ht⟩

/-- A value starts neither with a gap nor with a closing bracket. -/
theorem Scalar.Spelled.head_notMem {s : Scalar} {w : Text} (h : s.Spelled w) :
    ∃ c t, w = c :: t ∧ c ∉ [' ', '\t', '#', '\n', '\r'] ∧ c ≠ ']' := by
  cases h with
  | string => exact ⟨'"', _, rfl, by decide, by decide⟩
  | integer n =>
      obtain ⟨c, t, hct, hc⟩ := (spelledInteger_decimal n).head
      have hnone : ∀ d ∈ [' ', '\t', '#', '\n', '\r', ']'],
          ¬ (d.isDigit = true ∨ d = '+' ∨ d = '-') := by simp
      refine ⟨c, t, hct, fun hmem => hnone c (List.mem_append_left [']'] hmem) hc, ?_⟩
      rintro rfl
      exact hnone ']' (by decide) hc

/-- One item, with what stands behind it. -/
theorem itemsUpTo?_item (depth bound : Nat) {g w g' : Text} {v : Scalar} (hg : IsGap g)
    (hv : v.Spelled w) (hg' : IsGap g') {c : Char} (hc : c = ',' ∨ c = ']') (rest : Text) :
    itemsUpTo? (valueWithin? depth) ']' (bound + 1) (g ++ (w ++ (g' ++ c :: rest)))
      = if c = ',' then
          (itemsUpTo? (valueWithin? depth) ']' bound rest).map fun (as, rest) =>
            (v.value :: as, rest)
        else some ([v.value], rest) := by
  have hword : AtWordEnd (c :: rest) := by
    intro d hd
    rw [← Option.some.inj hd]
    rcases hc with rfl | rfl <;> rfl
  have hread := valueWithin?_spelled_append depth hv (hg'.atWordEnd hword)
  have hend : skipGap (g' ++ c :: rest) = c :: rest := by
    rw [hg', skipGap_cons_of_notMem (by rcases hc with rfl | rfl <;> decide)]
  obtain ⟨d, t, rfl, hd, hclose⟩ := hv.head_notMem
  rw [itemsUpTo?, hg, List.cons_append, skipGap_cons_of_notMem hd]
  dsimp only
  rw [List.cons_append] at hread
  rw [if_neg hclose, hread, Option.bind_some]
  dsimp only
  rw [hend]
  rcases hc with rfl | rfl <;> rfl

/-- Items are read back, whatever follows them. The bound counts items, and the length of the text
is enough. -/
theorem SpelledItems.itemsUpTo?_append {vs : List Scalar} {t : Text} (h : SpelledItems vs t)
    (depth : Nat) {bound : Nat} (hbound : t.length ≤ bound) (rest : Text) :
    itemsUpTo? (valueWithin? depth) ']' bound (t ++ rest) = some (vs.map Scalar.value, rest) := by
  induction h generalizing bound with
  | @nil g hg =>
      rw [List.length_append, List.length_singleton] at hbound
      obtain ⟨bound, rfl⟩ := Nat.exists_eq_add_one_of_ne_zero (by omega : bound ≠ 0)
      rw [List.append_assoc, itemsUpTo?, hg, List.singleton_append,
        skipGap_cons_of_notMem (by decide)]
      rfl
  | @last g w g' v hg hv hg' =>
      rw [List.length_append, List.length_singleton] at hbound
      obtain ⟨bound, rfl⟩ := Nat.exists_eq_add_one_of_ne_zero (by omega : bound ≠ 0)
      have hitem := itemsUpTo?_item depth bound hg hv hg' (.inr rfl) rest
      simpa using hitem
  | @cons g w g' v vs t hg hv hg' _ ih =>
      simp only [List.length_append, List.length_cons] at hbound
      obtain ⟨bound, rfl⟩ := Nat.exists_eq_add_one_of_ne_zero (by omega : bound ≠ 0)
      have hitem := itemsUpTo?_item depth bound hg hv hg' (.inl rfl) (t ++ rest)
      rw [if_pos rfl, ih (by omega), Option.map_some] at hitem
      simpa using hitem

/-- An array of strings and integers is read back however it is written. -/
theorem SpelledItems.isValue {vs : List Scalar} {t : Text} (h : SpelledItems vs t) :
    IsValue ('[' :: t) (.array false (vs.map Scalar.value)) := by
  refine ⟨⟨'[', t, rfl, rfl⟩, fun rest _ => ?_⟩
  have hlength : t.length ≤ (t ++ rest).length + 1 := by
    rw [List.length_append]
    omega
  have hitems : items? (valueWithin? 79) ']' (t ++ rest) = some (vs.map Scalar.value, rest) :=
    h.itemsUpTo?_append 79 hlength rest
  rw [List.cons_append, value?, depthLimit, valueWithin?, hitems]
  rfl

end MeetingMail.Toml
