import MeetingMail.Toml.Word

/-!
Integers in decimal notation, as values of a TOML document.

* `SpelledInteger` relates an integer to the ways to write it in decimal: with an optional sign, and
  with underscores between its digits. `decimal` is the one with neither more than needed.
* `word?_spelledInteger_append`: however an integer is written, it is read as an integer with this
  value where a word ends behind it. It is no boolean, no date and no time.
-/

namespace MeetingMail.Toml

/-! ### Words that are no dates -/

theorem eq_cons_of_mark? {c : Char} {t rest : Text} (h : mark? c t = some rest) :
    t = c :: rest := by
  cases t with
  | nil => cases h
  | cons d t =>
      rw [mark?] at h
      split at h
      · simp_all
      · cases h

theorem eq_drop_of_fixedDigits? {width n : Nat} {t rest : Text}
    (h : fixedDigits? width t = some (n, rest)) : rest = t.drop width := by
  simp only [fixedDigits?, Option.ite_none_right_eq_some, Option.some.injEq, Prod.mk.injEq] at h
  exact h.2.2.symm

/-- A character that a number may hold behind its first: a digit or an underscore. -/
def IsDigitOrUnderscore (c : Char) : Prop := c.isDigit = true ∨ c = '_'

instance (c : Char) : Decidable (IsDigitOrUnderscore c) :=
  inferInstanceAs (Decidable (c.isDigit = true ∨ c = '_'))

/-- A text whose characters behind the first are all digits and underscores. -/
def IsNumeral (t : Text) : Prop := ∀ c ∈ t.tail, IsDigitOrUnderscore c

theorem IsNumeral.mark?_eq_none {width n : Nat} {m : Char} {t rest : Text} (h : IsNumeral t)
    (hm : ¬ IsDigitOrUnderscore m) (hfixed : fixedDigits? (width + 1) t = some (n, rest)) :
    mark? m rest = none := by
  rw [Option.eq_none_iff_forall_ne_some]
  intro behind hmark
  have hdrop : t.tail.drop width = m :: behind := by
    rw [← eq_cons_of_mark? hmark, eq_drop_of_fixedDigits? hfixed, List.drop_tail]
  exact hm (h m (List.mem_of_mem_drop (hdrop ▸ List.mem_cons_self)))

theorem IsNumeral.afterDate?_eq_none {t : Text} (h : IsNumeral t) : afterDate? t = none := by
  rw [Option.eq_none_iff_forall_ne_some]
  intro rest hdate
  simp only [afterDate?, Option.bind_eq_bind, Option.bind_eq_some_iff] at hdate
  obtain ⟨⟨year, t'⟩, hyear, t'', hmark, -⟩ := hdate
  rw [h.mark?_eq_none (by decide) hyear] at hmark
  cases hmark

theorem IsNumeral.afterTime?_eq_none {t : Text} (h : IsNumeral t) : afterTime? t = none := by
  rw [Option.eq_none_iff_forall_ne_some]
  intro rest htime
  simp only [afterTime?, afterMinutes?, Option.bind_eq_bind, Option.bind_eq_some_iff] at htime
  obtain ⟨_, ⟨⟨hour, t'⟩, hhour, t'', hmark, -⟩, -⟩ := htime
  rw [h.mark?_eq_none (by decide) hhour] at hmark
  cases hmark

theorem IsNumeral.isMoment_eq_false {t : Text} (h : IsNumeral t) : isMoment t = false := by
  rw [isMoment, h.afterDate?_eq_none, h.afterTime?_eq_none]
  rfl

theorem IsNumeral.integer?_eq {t : Text} (h : IsNumeral t) : integer? t = decimal? t := by
  unfold integer?
  split
  · exact absurd (h 'x' List.mem_cons_self) (by decide)
  · exact absurd (h 'o' List.mem_cons_self) (by decide)
  · exact absurd (h 'b' List.mem_cons_self) (by decide)
  · rfl

/-! ### Digits with underscores -/

theorem isDigit_ofNat (n : Nat) : ∀ c ∈ Text.ofNat n, c.isDigit = true := fun _ =>
  Text.isDigit_of_mem_ofNat

theorem isDigitIn_sixteen {c : Char} (h : c.isDigit = true) : isDigitIn 16 c = true := by
  obtain ⟨hhex, -⟩ := Option.filter_eq_some_iff.mp (digitIn?_of_isDigit h)
  have hsmall : c.toNat - '0'.toNat < 16 := by
    have hbound := (Option.filter_eq_some_iff.mp (digitIn?_of_isDigit h)).2
    exact Nat.lt_trans (of_decide_eq_true hbound) (by decide)
  rw [isDigitIn, digitIn?, hhex, Option.filter_some, if_pos (decide_eq_true hsmall)]
  rfl

/-- Digits with at most one underscore between each two of them. -/
inductive Grouped : Text → Text → Prop where
  | last (c : Char) : Grouped [c] [c]
  | next (c : Char) {digits w : Text} (h : Grouped digits w) : Grouped (c :: digits) (c :: w)
  | group (c : Char) {digits w : Text} (h : Grouped digits w) :
      Grouped (c :: digits) (c :: '_' :: w)

namespace Grouped

theorem refl {digits : Text} (hne : digits ≠ []) : Grouped digits digits := by
  induction digits with
  | nil => exact absurd rfl hne
  | cons c digits ih =>
      cases digits with
      | nil => exact .last c
      | cons d digits => exact .next c (ih (List.cons_ne_nil d digits))

variable {digits w : Text}

theorem head (h : Grouped digits w) : ∃ c t t', digits = c :: t ∧ w = c :: t' := by
  cases h <;> exact ⟨_, _, _, rfl, rfl⟩

section Digits

variable (hdigits : ∀ c ∈ digits, c.isDigit = true)
include hdigits

theorem isDigitOrUnderscore (h : Grouped digits w) : ∀ c ∈ w, IsDigitOrUnderscore c := by
  induction h with
  | last c => exact List.forall_mem_singleton.mpr (.inl (hdigits c List.mem_cons_self))
  | next c _ ih =>
      obtain ⟨hc, hdigits⟩ := List.forall_mem_cons.mp hdigits
      exact List.forall_mem_cons.mpr ⟨.inl hc, ih hdigits⟩
  | group c _ ih =>
      obtain ⟨hc, hdigits⟩ := List.forall_mem_cons.mp hdigits
      exact List.forall_mem_cons.mpr ⟨.inl hc, List.forall_mem_cons.mpr ⟨.inr rfl, ih hdigits⟩⟩

theorem dropUnderscores_eq (h : Grouped digits w) : dropUnderscores w = digits := by
  have hne {c : Char} (hc : c.isDigit = true) : (c != '_') = true :=
    bne_iff_ne.mpr fun heq => absurd (heq ▸ hc) (by decide)
  unfold dropUnderscores
  induction h with
  | last c =>
      rw [List.filter_cons, if_pos (hne (hdigits c List.mem_cons_self)), List.filter_nil]
  | next c _ ih =>
      obtain ⟨hc, hdigits⟩ := List.forall_mem_cons.mp hdigits
      rw [List.filter_cons, if_pos (hne hc), ih hdigits]
  | group c _ ih =>
      obtain ⟨hc, hdigits⟩ := List.forall_mem_cons.mp hdigits
      rw [List.filter_cons, if_pos (hne hc), List.filter_cons_of_neg (by simp), ih hdigits]

/-- No underscore stands anywhere but between two digits. -/
theorem underscoresFitAfter_eq_true (h : Grouped digits w) (before : Bool) :
    underscoresFitAfter (isDigitIn 16) before w = true := by
  have hne {c : Char} (hc : c.isDigit = true) : c ≠ '_' := fun heq =>
    absurd (heq ▸ hc) (by decide)
  induction h generalizing before with
  | last c => rw [underscoresFitAfter, if_neg (hne (hdigits c List.mem_cons_self))]; rfl
  | next c _ ih =>
      obtain ⟨hc, hdigits⟩ := List.forall_mem_cons.mp hdigits
      rw [underscoresFitAfter, if_neg (hne hc)]
      exact ih hdigits _
  | @group c digits w h ih =>
      obtain ⟨hc, hdigits⟩ := List.forall_mem_cons.mp hdigits
      obtain ⟨d, t, t', rfl, rfl⟩ := h.head
      have hd := isDigitIn_sixteen (hdigits d List.mem_cons_self)
      rw [underscoresFitAfter, if_neg (hne hc), underscoresFitAfter, if_pos rfl,
        isDigitIn_sixteen hc, ih hdigits, List.head?_cons, Option.any_some, hd]
      rfl

end Digits

end Grouped

/-! ### Integers -/

/-- An integer in decimal: its digits without leading zeros, behind a minus sign if it is
negative. -/
def decimal (n : Int) : Text :=
  if n < 0 then '-' :: Text.ofNat n.natAbs else Text.ofNat n.natAbs

/-- What is read for an integer in decimal. -/
def decimalLiteral (n : Int) : IntegerLiteral := ⟨decide (n < 0), 10, Text.ofNat n.natAbs⟩

/-- An integer in decimal with an optional sign, and with underscores between digits. -/
inductive SpelledInteger : Int → Text → Prop where
  | unsigned (n : Nat) {w : Text} (h : Grouped (Text.ofNat n) w) : SpelledInteger n w
  | plus (n : Nat) {w : Text} (h : Grouped (Text.ofNat n) w) : SpelledInteger n ('+' :: w)
  | minus (n : Nat) {w : Text} (h : Grouped (Text.ofNat n) w) : SpelledInteger (-n) ('-' :: w)

theorem spelledInteger_decimal (n : Int) : SpelledInteger n (decimal n) := by
  have hdigits := Grouped.refl (Text.ofNat_ne_nil n.natAbs)
  by_cases hn : n < 0
  · have hspelled := SpelledInteger.minus n.natAbs hdigits
    rw [decimal, if_pos hn]
    rwa [show -(n.natAbs : Int) = n by omega] at hspelled
  · have hspelled := SpelledInteger.unsigned n.natAbs hdigits
    rw [decimal, if_neg hn]
    rwa [show (n.natAbs : Int) = n by omega] at hspelled

section Words

variable {m : Nat} {w : Text} (h : Grouped (Text.ofNat m) w)
include h

theorem isNumeral_grouped : IsNumeral w := fun c hc =>
  h.isDigitOrUnderscore (isDigit_ofNat m) c (List.mem_of_mem_tail hc)

theorem takeSign_grouped : takeSign w = (false, w) := by
  obtain ⟨c, t, t', hdigits, rfl⟩ := h.head
  have hc : c.isDigit = true := isDigit_ofNat m c (hdigits ▸ List.mem_cons_self)
  unfold takeSign
  split
  · rename_i heq
    exact absurd ((List.cons.inj heq).1 ▸ hc) (by decide)
  · rename_i heq
    exact absurd ((List.cons.inj heq).1 ▸ hc) (by decide)
  · rfl

theorem looksDecimal_grouped : looksDecimal w = true := by
  have hchars := h.isDigitOrUnderscore (isDigit_ofNat m)
  by_cases hm : m = 0
  · rw [hm, Text.ofNat_zero] at h
    cases h with
    | last => rfl
    | next _ h | group _ h => cases h
  · obtain ⟨c, t, t', hdigits, rfl⟩ := h.head
    have hfirst : c ≠ '0' := by
      have hne := Text.head?_ofNat_ne_zero hm
      rw [hdigits] at hne
      exact fun heq => hne (congrArg some heq)
    have hrest : (c :: t').dropWhile Char.isDigit = [] ∨
        ∃ rest, (c :: t').dropWhile Char.isDigit = '_' :: rest ∧
          ∀ e ∈ rest, IsDigitOrUnderscore e := by
      rcases hdrop : (c :: t').dropWhile Char.isDigit with _ | ⟨d, rest⟩
      · exact .inl rfl
      · have hmem : ∀ e ∈ d :: rest, IsDigitOrUnderscore e := fun e he =>
          hchars e ((List.dropWhile_sublist _).subset (hdrop ▸ he))
        have hd : ¬ d.isDigit = true := by
          have hnot := List.head_dropWhile_not Char.isDigit (l := c :: t')
            (by rw [hdrop]; exact List.cons_ne_nil d rest)
          simpa [hdrop] using hnot
        obtain ⟨hfirst, hrest⟩ := List.forall_mem_cons.mp hmem
        exact .inr ⟨rest, by rw [hfirst.resolve_left hd], hrest⟩
    rw [looksDecimal]
    rcases hrest with hdrop | ⟨rest, hdrop, hchars⟩
    · rw [hdrop]
      simp [hfirst]
    · have hmarks : ∀ e ∈ rest, (e == '.' || isExponentMark e) = false := by
        intro e he
        have hmark : ∀ d ∈ ['.', 'e', 'E'], ¬ IsDigitOrUnderscore d := by
          simp [IsDigitOrUnderscore]
        have hnone : e ∉ ['.', 'e', 'E'] := fun hbad => hmark e hbad (hchars e he)
        simpa [isExponentMark] using hnone
      have hany : rest.any (fun e => e == '.' || isExponentMark e) = false :=
        List.any_eq_false.mpr fun e he => by rw [hmarks e he]; exact Bool.false_ne_true
      rw [hdrop]
      simp [hfirst, hany]

/-- Digits with underscores are read as the integer that the digits stand for, behind any sign. -/
theorem ofWord?_of_takeSign {word : Text} {negative : Bool}
    (hsign : takeSign word = (negative, w)) (hnumeral : IsNumeral word) :
    ofWord? word = some (.integer ⟨negative, 10, Text.ofNat m⟩) := by
  have hdecimal : decimal? word = some ⟨negative, 10, Text.ofNat m⟩ := by
    have hfit : underscoresFit (isDigitIn 16) w = true :=
      h.underscoresFitAfter_eq_true (isDigit_ofNat m) false
    rw [decimal?, hsign]
    dsimp only
    rw [if_pos ⟨looksDecimal_grouped h, hfit⟩, h.dropUnderscores_eq (isDigit_ofNat m)]
  have htrue : word ≠ "true".toList := fun heq =>
    absurd (hnumeral 'r' (heq ▸ by decide)) (by decide)
  have hfalse : word ≠ "false".toList := fun heq =>
    absurd (hnumeral 'a' (heq ▸ by decide)) (by decide)
  rw [ofWord?, if_neg htrue, if_neg hfalse, hnumeral.isMoment_eq_false, hnumeral.integer?_eq,
    hdecimal]
  rfl

end Words

theorem ofWord?_decimal (n : Int) : ofWord? (decimal n) = some (.integer (decimalLiteral n)) := by
  have hdigits := Grouped.refl (Text.ofNat_ne_nil n.natAbs)
  by_cases hn : n < 0
  · rw [decimal, if_pos hn, decimalLiteral, decide_eq_true hn]
    exact ofWord?_of_takeSign hdigits rfl (hdigits.isDigitOrUnderscore (isDigit_ofNat _))
  · rw [decimal, if_neg hn, decimalLiteral, decide_eq_false hn]
    exact ofWord?_of_takeSign hdigits (takeSign_grouped hdigits) (isNumeral_grouped hdigits)

/-! ### Their values -/

theorem mapM_digitIn?_of_digits {t : Text} (h : ∀ c ∈ t, c.isDigit = true) :
    t.mapM (digitIn? 10) = some (t.map fun c => c.toNat - '0'.toNat) := by
  induction t with
  | nil => rfl
  | cons c t ih =>
      rw [List.forall_mem_cons] at h
      rw [List.mapM_cons, digitIn?_of_isDigit h.1, ih h.2]
      rfl

theorem numberIn?_ofNat (n : Nat) : numberIn? 10 (Text.ofNat n) = some n := by
  have hvalue : (Text.ofNat n).foldl (fun high c => 10 * high + (c.toNat - '0'.toNat)) 0 = n := by
    rw [← Nat.ofDigitChars_eq_foldl]
    exact Text.toNat_ofNat n
  rw [numberIn?, if_neg (Text.ofNat_ne_nil n), mapM_digitIn?_of_digits (isDigit_ofNat n),
    Option.map_some, List.foldl_map, hvalue]

theorem value?_literal (negative : Bool) (n : Nat) :
    (IntegerLiteral.mk negative 10 (Text.ofNat n)).value?
      = some (if negative then -(n : Int) else n) := by
  rw [IntegerLiteral.value?, numberIn?_ofNat]
  rfl

theorem value?_decimalLiteral (n : Int) : (decimalLiteral n).value? = some n := by
  rw [decimalLiteral, value?_literal]
  by_cases hn : n < 0
  · rw [if_pos (decide_eq_true hn), Option.some.injEq]
    omega
  · rw [if_neg (by simpa using hn), Option.some.injEq]
    omega

theorem fits_decimalLiteral (n : Int) :
    (decimalLiteral n).fits = decide (-(Nat.pow 2 127 : Int) ≤ n ∧ n < Nat.pow 2 128) := by
  rw [IntegerLiteral.fits, value?_decimalLiteral, Bool.decide_and]

/-- However an integer is written, it is read as one with its value. -/
theorem SpelledInteger.exists_literal {n : Int} {w : Text} (h : SpelledInteger n w) :
    ∃ i : IntegerLiteral, i.value? = some n ∧ ofWord? w = some (.integer i) := by
  cases h with
  | unsigned n h =>
      exact ⟨_, value?_literal false n,
        ofWord?_of_takeSign h (takeSign_grouped h) (isNumeral_grouped h)⟩
  | plus n h =>
      exact ⟨_, value?_literal false n,
        ofWord?_of_takeSign h rfl (h.isDigitOrUnderscore (isDigit_ofNat n))⟩
  | minus n h =>
      exact ⟨_, value?_literal true n,
        ofWord?_of_takeSign h rfl (h.isDigitOrUnderscore (isDigit_ofNat n))⟩

/-! ### Integers in front of other things -/

/-- Holds of a text at whose start a line ends. -/
def AtLineEnd (t : Text) : Prop := ∀ c ∈ t.head?, c = '\n'

/-- Holds of a text at whose start a word ends. -/
def AtWordEnd (t : Text) : Prop := ∀ c ∈ t.head?, endsWord c = true

theorem AtLineEnd.atWordEnd {t : Text} (h : AtLineEnd t) : AtWordEnd t := by
  intro c hc
  rw [h c hc]
  rfl

theorem SpelledInteger.isNumeral {n : Int} {w : Text} (h : SpelledInteger n w) : IsNumeral w := by
  cases h with
  | unsigned n h => exact isNumeral_grouped h
  | plus n h | minus n h => exact h.isDigitOrUnderscore (isDigit_ofNat n)

/-- An integer starts with a digit or with a sign. -/
theorem SpelledInteger.head {n : Int} {w : Text} (h : SpelledInteger n w) :
    ∃ c t, w = c :: t ∧ (c.isDigit = true ∨ c = '+' ∨ c = '-') := by
  cases h with
  | unsigned n h =>
      obtain ⟨c, t, t', hdigits, rfl⟩ := h.head
      exact ⟨c, t', rfl, .inl (isDigit_ofNat n c (hdigits ▸ List.mem_cons_self))⟩
  | plus | minus => exact ⟨_, _, rfl, by decide⟩

theorem isWordChar_of_isDigitOrUnderscore {c : Char}
    (h : c.isDigit = true ∨ c = '+' ∨ c = '-' ∨ c = '_') : isWordChar c = true := by
  have hends : ∀ d ∈ "=,[]\x7b\x7d \t#\r\n".toList,
      ¬ (d.isDigit = true ∨ d = '+' ∨ d = '-' ∨ d = '_') := by simp
  have hnot : c ∉ "=,[]\x7b\x7d \t#\r\n".toList := fun hmem => hends c hmem h
  simpa [isWordChar, endsWord] using hnot

theorem SpelledInteger.isWordChar {n : Int} {w : Text} (h : SpelledInteger n w) :
    ∀ c ∈ w, isWordChar c = true := by
  have hnumeral := h.isNumeral
  obtain ⟨c, t, rfl, hc⟩ := h.head
  refine List.forall_mem_cons.mpr ⟨isWordChar_of_isDigitOrUnderscore ?_, fun d hd => ?_⟩
  · exact hc.imp_right (Or.imp_right .inl)
  · exact isWordChar_of_isDigitOrUnderscore ((hnumeral d hd).imp_right fun h => .inr (.inr h))

/-- A word that is no date goes up to its end, and not over a space. -/
theorem takeWord_append {word rest : Text} (hword : ∀ c ∈ word, isWordChar c = true)
    (hdate : afterDate? word = none) (hrest : AtWordEnd rest) :
    takeWord (word ++ rest) = (word, rest) := by
  have htake : rest.takeWhile isWordChar = [] ∧ rest.dropWhile isWordChar = rest := by
    cases rest with
    | nil => exact ⟨rfl, rfl⟩
    | cons c rest =>
        have hc : isWordChar c = false := by rw [isWordChar, hrest c rfl]; rfl
        exact ⟨List.takeWhile_cons_of_neg (by simp [hc]), List.dropWhile_cons_of_neg (by simp [hc])⟩
  rw [takeWord, List.takeWhile_append_of_pos hword, List.dropWhile_append_of_pos hword, htake.1,
    htake.2, List.append_nil]
  split
  · rw [hdate, if_neg (by simp)]
  · rfl

/-- An integer is read as what its decimal notation stands for where a word ends behind it. -/
theorem word?_decimal_append (n : Int) {rest : Text} (h : AtWordEnd rest) :
    word? (decimal n ++ rest) = some (.integer (decimalLiteral n), rest) := by
  have hn := spelledInteger_decimal n
  rw [word?, takeWord_append hn.isWordChar hn.isNumeral.afterDate?_eq_none h]
  dsimp only
  rw [ofWord?_decimal, Option.map_some]

theorem word?_spelledInteger_append {n : Int} {w : Text} (hw : SpelledInteger n w) :
    ∃ i : IntegerLiteral, i.value? = some n ∧
      ∀ rest, AtWordEnd rest → word? (w ++ rest) = some (.integer i, rest) := by
  obtain ⟨i, hvalue, hword⟩ := hw.exists_literal
  refine ⟨i, hvalue, fun rest hrest => ?_⟩
  rw [word?, takeWord_append hw.isWordChar hw.isNumeral.afterDate?_eq_none hrest]
  dsimp only
  rw [hword, Option.map_some]

end MeetingMail.Toml
