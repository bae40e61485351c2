import MeetingMail.Proofs.Toml.BasicString
import MeetingMail.Proofs.Toml.Statements

/-!
The plain lines of a TOML document: headers of tables, and bare keys with a string or an integer.

* `Scalar.Spelled` and `Row.Spelled` say how values and lines may be written.
* `IsValue` relates a text to the value that it is read as, where a word ends behind it.
* `isLine_pair`: a bare key with such a value is a line, with any spaces and a comment at its end.
* `Row.Spelled.isLine`: a line that spells a row is read as the statement of this row.
-/

namespace MeetingMail.Toml

/-! ### Values -/

inductive Scalar where
  | string (t : Text)
  | integer (n : Int)
  deriving DecidableEq, Repr

namespace Scalar

/-- What is read for a string or an integer. -/
def value : Scalar → Value
  | .string t => .string t
  | .integer n => .integer (decimalLiteral n)

/-- Strings are written as basic strings, and integers in decimal. -/
inductive Spelled : Scalar → Text → Prop where
  | string {t w : Text} (h : SpelledText t w) : Spelled (.string t) ('"' :: (w ++ ['"']))
  | integer (n : Int) : Spelled (.integer n) (decimal n)

/-- Holds of all strings, and of the integers that fit 128 bits, with a sign if negative. -/
def Fits : Scalar → Prop
  | .string _ => True
  | .integer n => -(Nat.pow 2 127 : Int) ≤ n ∧ n < Nat.pow 2 128

instance (s : Scalar) : Decidable s.Fits :=
  match s with
  | .string _ => inferInstanceAs (Decidable True)
  | .integer n => inferInstanceAs (Decidable (-(Nat.pow 2 127 : Int) ≤ n ∧ n < Nat.pow 2 128))

theorem exists_spelled (s : Scalar) : ∃ w, s.Spelled w := by
  cases s with
  | string t =>
      obtain ⟨w, hw⟩ := exists_spelledText t
      exact ⟨_, .string hw⟩
  | integer n => exact ⟨_, .integer n⟩

theorem isReadable_value (s : Scalar) : s.value.isReadable = decide s.Fits := by
  cases s with
  | string t => rfl
  | integer n =>
      rw [value, Value.isReadable, fits_decimalLiteral]
      rfl

end Scalar

theorem AtWordEnd.ne_quote {rest : Text} (h : AtWordEnd rest) : rest.head? ≠ some '"' :=
  fun heq => absurd (h '"' heq) (by decide)

/-- A value without a quote or a bracket in front is a bare word. -/
theorem valueWithin?_of_head (depth : Nat) {c : Char} (t : Text)
    (h : c ∉ ['"', '\'', '[', '\x7b']) : valueWithin? depth (c :: t) = word? (c :: t) := by
  unfold valueWithin?
  split
  iterate 4
    rename_i heq
    obtain ⟨rfl, -⟩ := List.cons.inj heq
    exact absurd h (by decide)
  rfl

/-- An integer has neither a quote nor a bracket nor a space in front. -/
theorem SpelledInteger.head_notMem {n : Int} {w : Text} (h : SpelledInteger n w) :
    ∃ c t, w = c :: t ∧ c ∉ ['"', '\'', '[', '\x7b', ' ', '\t'] := by
  obtain ⟨c, t, rfl, hc⟩ := h.head
  have hnone : ∀ d ∈ ['"', '\'', '[', '\x7b', ' ', '\t'],
      ¬ (d.isDigit = true ∨ d = '+' ∨ d = '-') := by simp
  exact ⟨c, t, rfl, fun hmem => hnone c hmem hc⟩

theorem SpelledInteger.valueWithin?_append {n : Int} {w : Text} (h : SpelledInteger n w)
    (depth : Nat) (rest : Text) : valueWithin? depth (w ++ rest) = word? (w ++ rest) := by
  obtain ⟨c, t, rfl, hc⟩ := h.head_notMem
  refine valueWithin?_of_head depth (t ++ rest) fun hmem => hc ?_
  exact List.mem_append_left [' ', '\t'] hmem

/-- A text that is read as a value wherever a word ends behind it. -/
structure IsValue (w : Text) (v : Value) : Prop where
  head : ∃ c t, w = c :: t ∧ isSpace c = false
  value?_append : ∀ rest, AtWordEnd rest → value? (w ++ rest) = some (v, rest)

/-- No integer starts with a space. -/
theorem SpelledInteger.head_space {n : Int} {w : Text} (h : SpelledInteger n w) :
    ∃ c t, w = c :: t ∧ isSpace c = false := by
  obtain ⟨c, t, hct, hc⟩ := h.head_notMem
  refine ⟨c, t, hct, isSpace_eq_false fun hmem => hc ?_⟩
  exact List.mem_append_right ['"', '\'', '[', '\x7b'] hmem

/-- An integer in decimal, however it is written, is read as an integer with its value. -/
theorem SpelledInteger.exists_isValue {n : Int} {w : Text} (h : SpelledInteger n w) :
    ∃ i : IntegerLiteral, i.value? = some n ∧ IsValue w (.integer i) := by
  obtain ⟨i, hvalue, hword⟩ := word?_spelledInteger_append h
  refine ⟨i, hvalue, h.head_space, fun rest hrest => ?_⟩
  rw [value?, h.valueWithin?_append, hword rest hrest]

theorem Scalar.Spelled.head {s : Scalar} {w : Text} (h : s.Spelled w) :
    ∃ c t, w = c :: t ∧ isSpace c = false := by
  cases h with
  | string => exact ⟨'"', _, rfl, rfl⟩
  | integer n => exact (spelledInteger_decimal n).head_space

/-- A value is read back however it is spelled, if a word ends behind it. -/
theorem valueWithin?_spelled_append (depth : Nat) {s : Scalar} {w : Text} (h : s.Spelled w)
    {rest : Text} (hrest : AtWordEnd rest) :
    valueWithin? depth (w ++ rest) = some (s.value, rest) := by
  cases h with
  | @string t w h =>
      have hquoted := quoted?_spelled_append h hrest.ne_quote
      rw [List.cons_append, List.append_assoc, List.singleton_append, valueWithin?, hquoted]
      rfl
  | integer n =>
      rw [(spelledInteger_decimal n).valueWithin?_append, word?_decimal_append n hrest]
      rfl

theorem Scalar.Spelled.isValue {s : Scalar} {w : Text} (h : s.Spelled w) : IsValue w s.value :=
  ⟨h.head, fun _ hrest => valueWithin?_spelled_append depthLimit h hrest⟩

/-! ### Keys -/

/-- A key that needs no quotes. -/
def IsBareKey (k : Text) : Prop := k ≠ [] ∧ ∀ c ∈ k, isKeyChar c = true

instance (k : Text) : Decidable (IsBareKey k) :=
  decidable_of_iff (k ≠ [] ∧ k.all isKeyChar = true) (by rw [IsBareKey, List.all_eq_true])

theorem IsBareKey.cons {k : Text} (h : IsBareKey k) :
    ∃ c t, k = c :: t ∧ isKeyChar c = true := by
  obtain ⟨c, t, rfl⟩ := List.exists_cons_of_ne_nil h.1
  exact ⟨c, t, rfl, h.2 c List.mem_cons_self⟩

theorem ne_of_isKeyChar {c d : Char} (hc : isKeyChar c = true) (hd : isKeyChar d = false) :
    c ≠ d := by
  rintro rfl
  rw [hd] at hc
  cases hc

theorem skipSpaces_bareKey_append {k : Text} (h : IsBareKey k) (rest : Text) :
    skipSpaces (k ++ rest) = k ++ rest := by
  obtain ⟨c, t, rfl, hc⟩ := h.cons
  have hnone : ∀ d ∈ [' ', '\t'], ¬ isKeyChar d = true := by simp [isKeyChar]
  exact skipSpaces_cons_of_neg (isSpace_eq_false fun hmem => hnone c hmem hc) (t ++ rest)

theorem keyPart?_bareKey_append {k : Text} (h : IsBareKey k) {rest : Text}
    (hrest : ∀ c ∈ rest.head?, isKeyChar c = false) :
    keyPart? (k ++ rest) = some (k, rest) := by
  have hend : rest.takeWhile isKeyChar = [] ∧ rest.dropWhile isKeyChar = rest := by
    cases rest with
    | nil => exact ⟨rfl, rfl⟩
    | cons c rest =>
        have hc := hrest c rfl
        exact ⟨List.takeWhile_cons_of_neg (by simp [hc]), List.dropWhile_cons_of_neg (by simp [hc])⟩
  have htake : (k ++ rest).takeWhile isKeyChar = k := by
    rw [List.takeWhile_append_of_pos h.2, hend.1, List.append_nil]
  have hdrop : (k ++ rest).dropWhile isKeyChar = rest := by
    rw [List.dropWhile_append_of_pos h.2, hend.2]
  obtain ⟨c, t, hct, hc⟩ := h.cons
  unfold keyPart?
  split
  · rename_i heq
    rw [hct] at heq
    exact absurd (List.cons.inj heq).1 (ne_of_isKeyChar hc rfl)
  · rename_i heq
    rw [hct] at heq
    exact absurd (List.cons.inj heq).1 (ne_of_isKeyChar hc rfl)
  · rw [htake, hdrop, if_neg (by simpa using h.1)]

/-- A bare key in front of something that is neither a key character nor a dot. -/
theorem key?_bareKey_append {k : Text} (h : IsBareKey k) {rest : Text}
    (hrest : ∀ c ∈ rest.head?, isKeyChar c = false) (hdot : (skipSpaces rest).head? ≠ some '.') :
    key? (k ++ rest) = some ([k], skipSpaces rest) := by
  have hpath : path? (k ++ rest) = some ([k], skipSpaces rest) := by
    have hpart := keyPart?_bareKey_append h hrest
    unfold path?
    split
    · rename_i hnone
      rw [hpart] at hnone
      cases hnone
    · rename_i part rest' hsome
      rw [hpart] at hsome
      cases hsome
      split
      · rename_i hmore
        exact absurd (congrArg List.head? hmore) hdot
      · rfl
  rw [key?, hpath]
  rfl

/-! ### Lines -/

/-- A line with content: the header of a table, or a key with its value. -/
inductive Row where
  | header (name : Text)
  | line (key : Text) (value : Scalar)
  deriving DecidableEq, Repr

namespace Row

/-- The name that a row brings: the name of its table, or its key. -/
def name : Row → Text
  | .header name => name
  | .line key _ => key

def statement : Row → Statement
  | .header name => .header (.table [name])
  | .line key v => .assignment ⟨[key], v.value⟩

/-- A header stands between brackets, and a key in front of an equals sign. -/
inductive Spelled : Row → Text → Prop where
  | header (name : Text) : Spelled (.header name) ('[' :: (name ++ [']']))
  | line (key : Text) {v : Scalar} {w : Text} (h : v.Spelled w) :
      Spelled (.line key v) (key ++ " = ".toList ++ w)

theorem exists_spelled (row : Row) : ∃ l, row.Spelled l := by
  cases row with
  | header name => exact ⟨_, .header name⟩
  | line key v =>
      obtain ⟨w, hw⟩ := v.exists_spelled
      exact ⟨_, .line key hw⟩

end Row

theorem isKeyChar_notMem {c : Char} (h : isKeyChar c = true) :
    c ∉ [' ', '\t', '#', '\n', '\r'] := by
  have hnone : ∀ d ∈ [' ', '\t', '#', '\n', '\r'], ¬ isKeyChar d = true := by simp [isKeyChar]
  exact fun hmem => hnone c hmem h

theorem isLine_header {name : Text} (h : IsBareKey name) :
    IsLine ('[' :: (name ++ [']'])) [.header (.table [name])] := by
  refine isLine_of_head (by decide) fun rest _ => ⟨rest, ?_, rfl⟩
  have hkey : key? (name ++ ']' :: rest) = some ([name], ']' :: rest) :=
    key?_bareKey_append h (by simp [isKeyChar]) (by simp [skipSpaces_cons_of_neg, isSpace])
  obtain ⟨c, t, hct, hc⟩ := h.cons
  rw [List.cons_append, List.append_assoc, List.singleton_append]
  unfold statement?
  split
  · rename_i heq
    rw [hct] at heq
    exact absurd (List.cons.inj (List.cons.inj heq).2).1 (ne_of_isKeyChar hc rfl)
  · rename_i heq
    rw [← (List.cons.inj heq).2, skipSpaces_bareKey_append h, hkey]
    rfl
  · rename_i hheader
    exact absurd rfl (hheader _)

theorem skipSpaces_append {gap : Text} (h : ∀ c ∈ gap, isSpace c = true) (t : Text) :
    skipSpaces (gap ++ t) = skipSpaces t := List.dropWhile_append_of_pos h

theorem isKeyChar_of_isSpace {c : Char} (h : isSpace c = true) : isKeyChar c = false := by
  rw [isSpace, Bool.or_eq_true, beq_iff_eq, beq_iff_eq] at h
  rcases h with rfl | rfl <;> rfl

/-- A bare key, an equals sign and a value, with spaces around the equals sign. -/
theorem statement?_pair_append {k w gap gap' : Text} {v : Value} (hk : IsBareKey k)
    (hgap : ∀ c ∈ gap, isSpace c = true) (hgap' : ∀ c ∈ gap', isSpace c = true)
    (hw : IsValue w v) {rest : Text} (hrest : AtWordEnd rest) :
    statement? (k ++ (gap ++ '=' :: (gap' ++ (w ++ rest))))
      = some (.assignment ⟨[k], v⟩, rest) := by
  have hequals (t : Text) : skipSpaces (gap ++ '=' :: t) = '=' :: t :=
    (skipSpaces_append hgap _).trans (skipSpaces_cons_of_neg rfl t)
  have hbehind (t : Text) : ∀ c ∈ (gap ++ '=' :: t).head?, isKeyChar c = false := by
    intro c hc
    cases gap with
    | nil => rw [← Option.some.inj hc]; rfl
    | cons d gap =>
        rw [← Option.some.inj hc]
        exact isKeyChar_of_isSpace (hgap d List.mem_cons_self)
  have hkey (t : Text) : key? (k ++ (gap ++ '=' :: t)) = some ([k], '=' :: t) := by
    rw [key?_bareKey_append hk (hbehind t) (by rw [hequals]; simp), hequals]
  have hvalue : value? (skipSpaces (gap' ++ (w ++ rest))) = some (v, rest) := by
    obtain ⟨c, t, rfl, hspace⟩ := hw.head
    rw [skipSpaces_append hgap', List.cons_append, skipSpaces_cons_of_neg hspace]
    exact hw.value?_append rest hrest
  have hpair : pair? skipSpaces value? (k ++ (gap ++ '=' :: (gap' ++ (w ++ rest))))
      = some (⟨[k], v⟩, rest) := by
    rw [pair?, hkey, Option.bind_some]
    change (value? (skipSpaces (gap' ++ (w ++ rest)))).map _ = _
    rw [hvalue]
    rfl
  obtain ⟨c, t, hct, hc⟩ := hk.cons
  unfold statement?
  split
  · rename_i heq
    rw [hct] at heq
    exact absurd (List.cons.inj heq).1 (ne_of_isKeyChar hc rfl)
  · rename_i heq
    rw [hct] at heq
    exact absurd (List.cons.inj heq).1 (ne_of_isKeyChar hc rfl)
  · rw [hpair]
    rfl

/-- A bare key with a value is a line, with any spaces around the equals sign, and with spaces and a
comment behind the value. -/
theorem isLine_pair {k w gap gap' behind : Text} {v : Value} (hk : IsBareKey k)
    (hgap : ∀ c ∈ gap, isSpace c = true) (hgap' : ∀ c ∈ gap', isSpace c = true)
    (hw : IsValue w v) (hbehind : IsLine behind []) :
    IsLine (k ++ gap ++ '=' :: gap' ++ w ++ behind) [.assignment ⟨[k], v⟩] := by
  obtain ⟨c, t, hct, hc⟩ := hk.cons
  have hline (rest : Text) : k ++ gap ++ '=' :: gap' ++ w ++ behind ++ rest
      = k ++ (gap ++ '=' :: (gap' ++ (w ++ (behind ++ rest)))) := by simp
  have hread : ∀ rest, AtLineEnd rest → ∃ more,
      statement? (k ++ gap ++ '=' :: gap' ++ w ++ behind ++ rest)
        = some (.assignment ⟨[k], v⟩, more) ∧ endLine? more = endLine? rest := by
    intro rest hrest
    refine ⟨behind ++ rest, ?_, ?_⟩
    · rw [hline]
      exact statement?_pair_append hk hgap hgap' hw (hbehind.atWordEnd hrest)
    · cases hbehind with
      | blank hblank => exact hblank rest hrest
  rw [hct] at hread ⊢
  exact isLine_of_head (isKeyChar_notMem hc) hread

/-- A text that spells a row is a line with the statement of this row. -/
theorem Row.Spelled.isLine {row : Row} {l : Text} (h : row.Spelled l) (hname : IsBareKey row.name) :
    IsLine l [row.statement] := by
  cases h with
  | header name => exact isLine_header hname
  | @line key v w hw =>
      have hspace : ∀ c ∈ [' '], isSpace c = true := by simp [isSpace]
      have htext : key ++ " = ".toList ++ w = key ++ [' '] ++ '=' :: [' '] ++ w ++ [] := by simp
      rw [htext]
      exact isLine_pair hname hspace hspace hw.isValue isLine_nil

end MeetingMail.Toml
