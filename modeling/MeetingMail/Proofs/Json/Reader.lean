import Mathlib.Data.List.Forall2
import MeetingMail.Json.Printer
import MeetingMail.Text.Hexadecimal

/-!
JSON documents read back.

* `read?` reads a whole text as a document. It knows nothing of how documents are printed: white
  space may stand around every token, and strings may use every escape that there is.
* `read?_pretty`: what is printed for a document is read as this document.
-/

namespace MeetingMail.Json

open Text (hexDigit? hexDigit?_digitChar hexNumber? scalar? scalar?_toNat prepend
  length_hexNumber?_le)

/-! ### Strings -/

/-- The character that a one-letter escape stands for. -/
def shortEscape? : Char → Option Char
  | '"' => some '"'
  | '\\' => some '\\'
  | '/' => some '/'
  | 'b' => some '\x08'
  | 'f' => some '\x0c'
  | 'n' => some '\n'
  | 'r' => some '\r'
  | 't' => some '\t'
  | _ => none

/-- The character of a code in four hexadecimal digits. A character past the first 65,536 has two
codes, a high and a low one, and the low one has an escape of its own. -/
def coded? (t : Text) : Option (Char × Text) :=
  (hexNumber? 4 0 t).bind fun (code, rest) =>
    if 0xD800 ≤ code ∧ code < 0xDC00 then
      match rest with
      | '\\' :: 'u' :: rest =>
          (hexNumber? 4 0 rest).bind fun (low, rest) =>
            if 0xDC00 ≤ low ∧ low < 0xE000 then
              (scalar? (0x10000 + (code - 0xD800) * 0x400 + (low - 0xDC00))).map (·, rest)
            else none
      | _ => none
    else (scalar? code).map (·, rest)

/-- The character that an escape stands for, read from behind its backslash. -/
def escape? : Text → Option (Char × Text)
  | [] => none
  | c :: rest => if c = 'u' then coded? rest else (shortEscape? c).map (·, rest)

theorem length_coded?_le {t rest : Text} {d : Char} (h : coded? t = some (d, rest)) :
    rest.length ≤ t.length := by
  obtain ⟨⟨code, u⟩, hcode, h⟩ := Option.bind_eq_some_iff.mp h
  have hu := length_hexNumber?_le hcode
  dsimp only at h
  split at h
  · split at h
    · rename_i u'
      obtain ⟨⟨low, w⟩, hlow, h⟩ := Option.bind_eq_some_iff.mp h
      have hw := length_hexNumber?_le hlow
      dsimp only at h
      split at h
      · obtain ⟨_, -, heq⟩ := Option.map_eq_some_iff.mp h
        cases heq
        simp only [List.length_cons] at hu
        omega
      · cases h
    · cases h
  · obtain ⟨_, -, heq⟩ := Option.map_eq_some_iff.mp h
    cases heq
    exact hu

theorem length_escape?_lt {t rest : Text} {d : Char} (h : escape? t = some (d, rest)) :
    rest.length < t.length := by
  cases t with
  | nil => cases h
  | cons c t =>
      rw [escape?] at h
      split at h
      · have := length_coded?_le h
        simp only [List.length_cons]
        omega
      · obtain ⟨_, -, heq⟩ := Option.map_eq_some_iff.mp h
        cases heq
        exact Nat.lt_succ_self _

/-- A string behind its opening quote, and what follows its closing one. -/
def string? : Text → Option (Text × Text)
  | [] => none
  | c :: rest =>
      if c = '"' then some ([], rest)
      else if c = '\\' then
        match _h : escape? rest with
        | some (d, rest) => prepend d (string? rest)
        | none => none
      else if c.toNat < 0x20 then none
      else prepend c (string? rest)
termination_by t => t.length
decreasing_by
  · have := length_escape?_lt _h
    simp only [List.length_cons]
    omega
  · simp

/-! ### Documents -/

/-- White space between tokens. -/
def isWhite (c : Char) : Bool := c == ' ' || c == '\t' || c == '\n' || c == '\r'

def skipWhite (t : Text) : Text := t.dropWhile isWhite

/-- Items with commas between them up to a closing bracket, at least one and at most `bound`. -/
def itemsUpTo? {α : Type} (item? : Text → Option (α × Text)) (close : Char) :
    (bound : Nat) → Text → Option (List α × Text)
  | 0, _ => none
  | bound + 1, t =>
      (item? (skipWhite t)).bind fun (a, rest) =>
        match skipWhite rest with
        | ',' :: rest =>
            (itemsUpTo? item? close bound rest).map fun (as, rest) => (a :: as, rest)
        | c :: rest => if c = close then some ([a], rest) else none
        | [] => none

/-- Items up to a closing bracket, read from behind the opening one. A text has no more items
than characters. -/
def items? {α : Type} (item? : Text → Option (α × Text)) (close : Char) (t : Text) :
    Option (List α × Text) :=
  if (skipWhite t).head? = some close then some ([], (skipWhite t).tail)
  else itemsUpTo? item? close t.length t

/-- A member of an object: its name, a colon and its value. -/
def member? (value? : Text → Option (Json × Text)) : Text → Option ((Text × Json) × Text)
  | '"' :: t =>
      (string? t).bind fun (name, rest) =>
        match skipWhite rest with
        | ':' :: rest => (value? (skipWhite rest)).map fun (v, rest) => ((name, v), rest)
        | _ => none
  | _ => none

/-- A document with at most `depth` brackets open at once, and what follows it. -/
def valueWithin? : (depth : Nat) → Text → Option (Json × Text)
  | depth, t =>
      match t with
      | '"' :: rest => (string? rest).map fun (text, rest) => (.string text, rest)
      | '[' :: rest =>
          match depth with
          | 0 => none
          | depth + 1 =>
              (items? (valueWithin? depth) ']' rest).map fun (vs, rest) => (.array vs, rest)
      | '\x7b' :: rest =>
          match depth with
          | 0 => none
          | depth + 1 =>
              (items? (member? (valueWithin? depth)) '\x7d' rest).map fun (ms, rest) =>
                (.object ms, rest)
      | _ => none

/-- The document that a whole text is. No more brackets are open at once than the text has
characters. -/
def read? (t : Text) : Option Json :=
  (valueWithin? t.length (skipWhite t)).bind fun (v, rest) =>
    if skipWhite rest = [] then some v else none

/-! ### Printed strings are read back -/

theorem string?_escape {t rest : Text} {d : Char} (h : escape? t = some (d, rest)) :
    string? ('\\' :: t) = prepend d (string? rest) := by
  rw [string?, if_neg (by decide), if_pos rfl]
  split
  · rename_i d' rest' hsome
    rw [h] at hsome
    cases hsome
    rfl
  · rename_i hnone
    rw [h] at hnone
    cases hnone

/-- The code of a control character is read back. -/
theorem escape?_code {c : Char} (h : c.toNat < 0x20) (t : Text) :
    escape? ('u' :: '0' :: '0' :: Nat.digitChar (c.toNat / 16) :: Nat.digitChar (c.toNat % 16) :: t)
      = some (c, t) := by
  have hzero : hexDigit? '0' = some 0 := rfl
  have hhigh := hexDigit?_digitChar (c.toNat / 16) (by omega)
  have hlow := hexDigit?_digitChar (c.toNat % 16) (by omega)
  have hcode : 16 * (16 * (16 * (16 * 0 + 0) + 0) + c.toNat / 16) + c.toNat % 16 = c.toNat := by
    omega
  have hsmall : ¬ (0xD800 ≤ c.toNat ∧ c.toNat < 0xDC00) := by omega
  simp only [escape?, if_pos, coded?, hexNumber?, hzero, hhigh, hlow, Option.bind_some, hcode]
  rw [if_neg hsmall, scalar?_toNat]
  rfl

/-- A printed character is read back, whatever comes after it. -/
theorem string?_quoteChar_append (c : Char) (t : Text) :
    string? (quoteChar c ++ t) = prepend c (string? t) := by
  unfold quoteChar
  split
  iterate 7 exact string?_escape rfl
  rename_i hquote hbackslash _ _ _ _ _
  split
  · rename_i hcontrol
    exact string?_escape (escape?_code hcontrol t)
  · rename_i hplain
    rw [List.singleton_append, string?, if_neg hquote, if_neg hbackslash, if_neg hplain]

theorem string?_flatMap_quoteChar_append (t rest : Text) :
    string? (t.flatMap quoteChar ++ '"' :: rest) = some (t, rest) := by
  induction t with
  | nil => rw [List.flatMap_nil, List.nil_append, string?, if_pos rfl]
  | cons c t ih =>
      rw [List.flatMap_cons, List.append_assoc, string?_quoteChar_append, ih]
      rfl

/-! ### Printed documents are read back -/

@[simp] theorem skipWhite_newline_append (indent : Nat) (t : Text) :
    skipWhite (newline indent ++ t) = skipWhite t := by
  have hwhite : ∀ c ∈ newline indent, isWhite c = true := by
    intro c hc
    rcases List.mem_cons.mp hc with rfl | hc
    · rfl
    · rw [List.eq_of_mem_replicate hc]
      rfl
  exact List.dropWhile_append_of_pos hwhite

theorem skipWhite_cons_of_neg {c : Char} (h : isWhite c = false) (t : Text) :
    skipWhite (c :: t) = c :: t := List.dropWhile_cons_of_neg (by simp [h])

/-- A text stands for a value if it is read as the value in front of anything. -/
def Reads {α : Type} (read? : Text → Option (α × Text)) (t : Text) (a : α) : Prop :=
  ∀ rest, read? (skipWhite (t ++ rest)) = some (a, rest)

section Items

variable {α : Type} {item? : Text → Option (α × Text)} {close : Char} {indent : Nat}

/-- Holds of the brackets that may close a list of items. -/
def IsClosing (close : Char) : Prop := close ≠ ',' ∧ isWhite close = false

instance (close : Char) : Decidable (IsClosing close) :=
  inferInstanceAs (Decidable (_ ∧ _))

theorem itemsUpTo?_last {p : Text} {a : α} (hp : Reads item? p a) (hclose : IsClosing close)
    (bound last : Nat) (rest : Text) :
    itemsUpTo? item? close (bound + 1) (newline indent ++ p ++ (newline last ++ close :: rest))
      = some ([a], rest) := by
  rw [itemsUpTo?, List.append_assoc, skipWhite_newline_append, hp, Option.bind_some]
  simp only [skipWhite_newline_append, skipWhite_cons_of_neg hclose.2]
  split
  · rename_i heq
    exact absurd (List.cons.inj heq).1 hclose.1
  · rename_i heq
    cases heq
    rw [if_pos rfl]
  · rename_i heq
    cases heq

theorem itemsUpTo?_comma {p : Text} {a : α} (hp : Reads item? p a) (bound : Nat) (t : Text) :
    itemsUpTo? item? close (bound + 1) (newline indent ++ p ++ ',' :: t)
      = (itemsUpTo? item? close bound t).map fun (as, rest) => (a :: as, rest) := by
  rw [itemsUpTo?, List.append_assoc, skipWhite_newline_append, hp, Option.bind_some]
  rfl

/-- Pieces on lines of their own are read as the items that they stand for. -/
theorem itemsUpTo?_pieces (hclose : IsClosing close) {pieces : List Text} {as : List α}
    (h : List.Forall₂ (Reads item?) pieces as) (hne : pieces ≠ []) {bound : Nat}
    (hbound : pieces.length ≤ bound) (last : Nat) (rest : Text) :
    itemsUpTo? item? close bound
        ([','].intercalate (pieces.map (newline indent ++ ·)) ++ (newline last ++ close :: rest))
      = some (as, rest) := by
  induction h generalizing bound with
  | nil => exact absurd rfl hne
  | @cons p a pieces as hp hpieces ih =>
      obtain ⟨bound, rfl⟩ := Nat.exists_eq_add_one_of_ne_zero (Nat.ne_zero_of_lt hbound)
      cases hpieces with
      | nil =>
          rw [List.map_singleton, List.intercalate_singleton]
          exact itemsUpTo?_last hp hclose bound last rest
      | @cons q _ pieces _ hq hpieces =>
          have hrest := ih (List.cons_ne_nil q pieces) (Nat.le_of_succ_le_succ hbound)
          have hcons : [','].intercalate ((p :: q :: pieces).map (newline indent ++ ·))
                ++ (newline last ++ close :: rest)
              = newline indent ++ p ++ ',' :: ([','].intercalate
                ((q :: pieces).map (newline indent ++ ·)) ++ (newline last ++ close :: rest)) := by
            simp [List.intercalate_cons_cons]
          rw [hcons, itemsUpTo?_comma hp, hrest]
          rfl

theorem flatten_sublist_intercalate (separator : Text) (ls : List Text) :
    ls.flatten.Sublist (separator.intercalate ls) := by
  induction ls with
  | nil => exact List.Sublist.slnil
  | cons l ls ih =>
      cases ls with
      | nil => simp
      | cons l' ls =>
          rw [List.intercalate_cons_cons, List.flatten_cons, List.append_assoc]
          exact (ih.trans (List.sublist_append_right _ _)).append_left l

theorem length_le_intercalate (indent : Nat) (pieces : List Text) :
    pieces.length ≤ ([','].intercalate (pieces.map (newline indent ++ ·))).length := by
  have hflatten : pieces.length ≤ (pieces.map (newline indent ++ ·)).flatten.length := by
    induction pieces with
    | nil => exact Nat.zero_le _
    | cons p pieces ih =>
        have hnewline : (newline indent).length = indent + 1 := by simp [newline]
        simp only [List.length_cons, List.map_cons, List.flatten_cons, List.length_append]
        omega
  exact Nat.le_trans hflatten (flatten_sublist_intercalate _ _).length_le

theorem exists_intercalate_cons (indent : Nat) (p : Text) (pieces : List Text) :
    ∃ t, [','].intercalate ((p :: pieces).map (newline indent ++ ·)) =
      newline indent ++ (p ++ t) := by
  cases pieces with
  | nil => exact ⟨[], by simp⟩
  | cons q pieces => exact ⟨_, by rw [List.map_cons, List.map_cons, List.intercalate_cons_cons,
      List.append_assoc, List.append_assoc]⟩

/-- A text that an item is read from does not start with the bracket that ends the items. -/
theorem head?_skipWhite_ne (hnone : ∀ t, item? (close :: t) = none) {p : Text} {a : α}
    (hp : Reads item? p a) (rest : Text) : (skipWhite (p ++ rest)).head? ≠ some close := by
  intro hhead
  obtain ⟨t, ht⟩ := List.head?_eq_some_iff.mp hhead
  have hread := hp rest
  rw [ht, hnone] at hread
  cases hread

/-- Pieces between brackets are read as the items that they stand for. -/
theorem items?_bracketed (hclose : IsClosing close) (hnone : ∀ t, item? (close :: t) = none)
    {pieces : List Text} {as : List α} (h : List.Forall₂ (Reads item?) pieces as)
    (opening : Char) (indent : Nat) :
    ∃ body, bracketed opening close indent pieces = opening :: body ∧
      ∀ rest, items? item? close (body ++ rest) = some (as, rest) := by
  by_cases hne : pieces = []
  · subst hne
    cases h
    refine ⟨[close], rfl, fun rest => ?_⟩
    rw [List.singleton_append, items?, skipWhite_cons_of_neg hclose.2, List.head?_cons,
      if_pos rfl, List.tail_cons]
  · let lines := [','].intercalate (pieces.map (newline (indent + 2) ++ ·))
    refine ⟨lines ++ newline indent ++ [close], by rw [bracketed, if_neg hne]; rfl, fun rest => ?_⟩
    have hassoc : lines ++ newline indent ++ [close] ++ rest
        = lines ++ (newline indent ++ close :: rest) := by
      simp
    have hhead : (skipWhite (lines ++ (newline indent ++ close :: rest))).head? ≠ some close := by
      cases h with
      | nil => exact absurd rfl hne
      | cons hp hpieces =>
          obtain ⟨t, ht⟩ := exists_intercalate_cons (indent + 2) _ _
          rw [show lines = _ from ht, List.append_assoc, List.append_assoc,
            skipWhite_newline_append]
          exact head?_skipWhite_ne hnone hp _
    have hbound : pieces.length ≤ (lines ++ (newline indent ++ close :: rest)).length := by
      rw [List.length_append]
      exact Nat.le_add_right_of_le (length_le_intercalate (indent + 2) pieces)
    rw [hassoc, items?, if_neg hhead]
    exact itemsUpTo?_pieces hclose h hne hbound indent rest

theorem length_bracketed_pos (opening close : Char) (indent : Nat) (pieces : List Text) :
    0 < (bracketed opening close indent pieces).length := by
  unfold bracketed
  split <;> simp

theorem length_lt_bracketed {opening : Char} {pieces : List Text} {p : Text}
    (h : p ∈ pieces) : p.length < (bracketed opening close indent pieces).length := by
  have hmem : newline (indent + 2) ++ p ∈ pieces.map (newline (indent + 2) ++ ·) :=
    List.mem_map_of_mem h
  have hline : p.length ≤ ([','].intercalate (pieces.map (newline (indent + 2) ++ ·))).length :=
    ((List.sublist_append_right _ p).trans ((List.sublist_flatten_of_mem hmem).trans
      (flatten_sublist_intercalate [','] _))).length_le
  rw [bracketed, if_neg (List.ne_nil_of_mem h), List.length_append, List.length_append,
    List.length_cons, List.length_singleton]
  omega

end Items

/-! Documents -/

theorem valueWithin?_closing (depth : Nat) (t : Text) : valueWithin? depth (']' :: t) = none := by
  rw [valueWithin?] <;> simp

theorem reads_quote (depth : Nat) (t : Text) :
    Reads (valueWithin? depth) (quote t) (.string t) := by
  intro rest
  rw [quote, List.cons_append, List.cons_append, skipWhite_cons_of_neg rfl, List.append_assoc,
    valueWithin?, List.singleton_append, string?_flatMap_quoteChar_append, Option.map_some]

theorem reads_member {value? : Text → Option (Json × Text)} {t : Text} {v : Json}
    (h : Reads value? t v) (name : Text) :
    Reads (member? value?) (quote name ++ ':' :: ' ' :: t) (name, v) := by
  intro rest
  have hspace : skipWhite (' ' :: (t ++ rest)) = skipWhite (t ++ rest) := rfl
  rw [quote, List.cons_append, List.cons_append, List.cons_append, skipWhite_cons_of_neg rfl,
    List.append_assoc, List.append_assoc, List.singleton_append, member?]
  rw [string?_flatMap_quoteChar_append, Option.bind_some]
  change (value? (skipWhite (' ' :: (t ++ rest)))).map _ = _
  rw [hspace, h rest]
  rfl

mutual

/-- A printed document is read as this document, in front of anything. As many brackets as the
print has characters are enough. -/
theorem reads_prettyAt (indent : Nat) (v : Json) (depth : Nat)
    (h : (prettyAt indent v).length ≤ depth) :
    Reads (valueWithin? depth) (prettyAt indent v) v :=
  match v, depth with
  | .string t, depth => reads_quote depth t
  | .array vs, 0 => by
      rw [prettyAt] at h
      exact absurd h (Nat.not_le_of_gt (length_bracketed_pos _ _ _ _))
  | .object ms, 0 => by
      rw [prettyAt] at h
      exact absurd h (Nat.not_le_of_gt (length_bracketed_pos _ _ _ _))
  | .array vs, depth + 1 => by
      rw [prettyAt] at h ⊢
      have hpieces : ∀ p ∈ prettyItems (indent + 2) vs, p.length ≤ depth := fun p hp =>
        Nat.le_of_lt_succ (Nat.lt_of_lt_of_le (length_lt_bracketed hp) h)
      have hclosing : IsClosing ']' := by decide
      obtain ⟨body, hbody, hitems⟩ := items?_bracketed hclosing (valueWithin?_closing depth)
        (reads_prettyItems (indent + 2) vs depth hpieces) '[' indent
      intro rest
      rw [hbody, List.cons_append, skipWhite_cons_of_neg rfl, valueWithin?]
      simp only [hitems rest, Option.map_some]
  | .object ms, depth + 1 => by
      rw [prettyAt] at h ⊢
      have hpieces : ∀ p ∈ prettyMembers (indent + 2) ms, p.length ≤ depth := fun p hp =>
        Nat.le_of_lt_succ (Nat.lt_of_lt_of_le (length_lt_bracketed hp) h)
      have hclosing : IsClosing '\x7d' := by decide
      obtain ⟨body, hbody, hitems⟩ := items?_bracketed hclosing (fun _ => rfl)
        (reads_prettyMembers (indent + 2) ms depth hpieces) '\x7b' indent
      intro rest
      rw [hbody, List.cons_append, skipWhite_cons_of_neg rfl, valueWithin?]
      simp only [hitems rest, Option.map_some]

theorem reads_prettyItems (indent : Nat) (vs : List Json) (depth : Nat)
    (h : ∀ p ∈ prettyItems indent vs, p.length ≤ depth) :
    List.Forall₂ (Reads (valueWithin? depth)) (prettyItems indent vs) vs :=
  match vs with
  | [] => .nil
  | v :: vs => by
      rw [prettyItems, List.forall_mem_cons] at h
      exact .cons (reads_prettyAt indent v depth h.1) (reads_prettyItems indent vs depth h.2)

theorem reads_prettyMembers (indent : Nat) (ms : List (Text × Json)) (depth : Nat)
    (h : ∀ p ∈ prettyMembers indent ms, p.length ≤ depth) :
    List.Forall₂ (Reads (member? (valueWithin? depth))) (prettyMembers indent ms) ms :=
  match ms with
  | [] => .nil
  | (name, v) :: ms => by
      rw [prettyMembers, List.forall_mem_cons] at h
      have hv : (prettyAt indent v).length ≤ depth := by
        have := h.1
        simp only [List.length_append, List.length_cons] at this
        omega
      exact .cons (reads_member (reads_prettyAt indent v depth hv) name)
        (reads_prettyMembers indent ms depth h.2)

end

/-- What is printed for a document is read as this document. -/
theorem read?_pretty (v : Json) : read? (pretty v) = some v := by
  have hread := reads_prettyAt 0 v (prettyAt 0 v).length (Nat.le_refl _) []
  rw [List.append_nil] at hread
  rw [read?, pretty, hread, Option.bind_some]
  rfl

/-- The text of a member of an object, if it is a string. -/
def textAt? (name : Text) : Json → Option Text
  | .object members =>
      match members.lookup name with
      | some (.string t) => some t
      | _ => none
  | _ => none

end MeetingMail.Json
