import MeetingMail.Json.Printer

/-!
Control characters in printed JSON documents.

* A `Position` tells whether a reader that goes through a text is inside a string. It knows only
  quotes and backslashes.
* `Tidy` texts lead a reader from one position to another and hold no control characters on the
  way, except line feeds outside of strings.
* `tidy_pretty`: a document is printed as a text of this kind.
-/

namespace MeetingMail.Json

/-- Where a reader of a text is. -/
inductive Position where
  | outside
  | inside
  /-- Inside a string, behind the backslash of an escape. -/
  | escape
  deriving DecidableEq, Repr

namespace Position

def next : Position → Char → Position
  | .outside, c => if c = '"' then .inside else .outside
  | .inside, c => if c = '"' then .outside else if c = '\\' then .escape else .inside
  | .escape, _ => .inside

/-- The position behind a text that starts outside of strings. -/
def behind (t : Text) : Position := t.foldl next .outside

end Position

open Position

/-- A text that leads from one position to another, in which a control character can only be a
line feed outside of strings. -/
inductive Tidy : Position → Position → Text → Prop where
  | nil {p : Position} : Tidy p p []
  | cons {p q : Position} {c : Char} {t : Text} :
      (c.toNat < 0x20 → c = '\n' ∧ p = .outside) → Tidy (p.next c) q t → Tidy p q (c :: t)

namespace Tidy

variable {p q r : Position} {c : Char} {t u : Text}

theorem append (ht : Tidy p q t) (hu : Tidy q r u) : Tidy p r (t ++ u) := by
  induction ht with
  | nil => exact hu
  | cons hc _ ih => exact .cons hc (ih hu)

/-- A character that is no control character. -/
theorem visible (hc : 0x20 ≤ c.toNat) (ht : Tidy (p.next c) q t) : Tidy p q (c :: t) :=
  .cons (fun hcontrol => absurd hc (Nat.not_le_of_gt hcontrol)) ht

theorem control {before after : Text} (h : Tidy p q (before ++ c :: after))
    (hc : c.toNat < 0x20) : c = '\n' ∧ before.foldl Position.next p = .outside := by
  induction before generalizing p with
  | nil =>
      cases h with
      | cons hstep _ => exact hstep hc
  | cons d before ih =>
      cases h with
      | cons _ hrest => exact ih hrest

/-! ### Strings -/

theorem next_inside (hquote : c ≠ '"') (hbackslash : c ≠ '\\') :
    Position.next .inside c = .inside := by
  rw [Position.next, if_neg hquote, if_neg hbackslash]

/-- An escape of one letter. -/
theorem letter (hc : 0x20 ≤ c.toNat) : Tidy .inside .inside ['\\', c] :=
  .visible (by decide) (.visible hc .nil)

theorem plain (hc : 0x20 ≤ c.toNat) (hquote : c ≠ '"') (hbackslash : c ≠ '\\')
    (ht : Tidy .inside q t) : Tidy .inside q (c :: t) := by
  refine .visible hc ?_
  rwa [next_inside hquote hbackslash]

/-- A hexadecimal digit. -/
theorem digit {d : Nat} (hd : d < 16) (ht : Tidy .inside q t) :
    Tidy .inside q (Nat.digitChar d :: t) := by
  have hplain : ∀ d < 16, 0x20 ≤ (Nat.digitChar d).toNat ∧ Nat.digitChar d ≠ '"' ∧
      Nat.digitChar d ≠ '\\' := by decide
  obtain ⟨hc, hquote, hbackslash⟩ := hplain d hd
  exact plain hc hquote hbackslash ht

end Tidy

/-- Every character of a string is printed without control characters, and its escape ends inside
of the string. -/
theorem tidy_quoteChar (c : Char) : Tidy .inside .inside (quoteChar c) := by
  unfold quoteChar
  split
  iterate 7 exact .letter (by decide)
  rename_i hquote hbackslash _ _ _ _ _
  split
  · rename_i hcontrol
    exact .visible (by decide) (.visible (by decide) (.digit (d := 0) (by decide)
      (.digit (d := 0) (by decide) (.digit (by omega) (.digit (by omega) .nil)))))
  · rename_i hvisible
    exact .plain (Nat.le_of_not_lt hvisible) hquote hbackslash .nil

theorem tidy_quote (t : Text) : Tidy .outside .outside (quote t) := by
  have hinside : Tidy .inside .inside (t.flatMap quoteChar) := by
    induction t with
    | nil => exact .nil
    | cons c t ih => exact (tidy_quoteChar c).append ih
  exact .visible (by decide) (hinside.append (.visible (by decide) .nil))

/-! ### Documents -/

/-- Holds of the characters that stand between strings. -/
def IsMark (c : Char) : Prop := 0x20 ≤ c.toNat ∧ c ≠ '"'

instance (c : Char) : Decidable (IsMark c) := inferInstanceAs (Decidable (_ ∧ _))

theorem Tidy.mark {c : Char} {t : Text} (hc : IsMark c) (ht : Tidy .outside .outside t) :
    Tidy .outside .outside (c :: t) := by
  refine .visible hc.1 ?_
  rwa [Position.next, if_neg hc.2]

theorem tidy_newline (indent : Nat) : Tidy .outside .outside (newline indent) := by
  have hspaces : Tidy .outside .outside (List.replicate indent ' ') := by
    induction indent with
    | zero => exact .nil
    | succ indent ih => exact .mark (by decide) ih
  exact .cons (fun _ => ⟨rfl, rfl⟩) hspaces

theorem tidy_intercalate {pieces : List Text} (h : ∀ p ∈ pieces, Tidy .outside .outside p) :
    Tidy .outside .outside ([','].intercalate pieces) := by
  induction pieces with
  | nil => exact .nil
  | cons p pieces ih =>
      rw [List.forall_mem_cons] at h
      cases pieces with
      | nil =>
          rw [List.intercalate_singleton]
          exact h.1
      | cons q pieces =>
          rw [List.intercalate_cons_cons]
          exact (h.1.append (.mark (by decide) .nil)).append (ih h.2)

theorem tidy_bracketed {opening closing : Char} (hopening : IsMark opening)
    (hclosing : IsMark closing) (indent : Nat) {pieces : List Text}
    (h : ∀ p ∈ pieces, Tidy .outside .outside p) :
    Tidy .outside .outside (bracketed opening closing indent pieces) := by
  have hend : Tidy .outside .outside [closing] := .mark hclosing .nil
  unfold bracketed
  split
  · exact .mark hopening hend
  · have hlines : ∀ p ∈ pieces.map (newline (indent + 2) ++ ·), Tidy .outside .outside p := by
      intro p hp
      obtain ⟨piece, hpiece, rfl⟩ := List.mem_map.mp hp
      exact (tidy_newline _).append (h piece hpiece)
    have hbody := (tidy_intercalate hlines).append (tidy_newline indent)
    exact .mark hopening (hbody.append hend)

mutual

theorem tidy_prettyAt (indent : Nat) (v : Json) : Tidy .outside .outside (prettyAt indent v) :=
  match v with
  | .string t => tidy_quote t
  | .array vs => tidy_bracketed (by decide) (by decide) indent (tidy_prettyItems (indent + 2) vs)
  | .object ms =>
      tidy_bracketed (by decide) (by decide) indent (tidy_prettyMembers (indent + 2) ms)

theorem tidy_prettyItems (indent : Nat) (vs : List Json) :
    ∀ p ∈ prettyItems indent vs, Tidy .outside .outside p :=
  match vs with
  | [] => fun p hp => by cases hp
  | v :: vs => List.forall_mem_cons.mpr ⟨tidy_prettyAt indent v, tidy_prettyItems indent vs⟩

theorem tidy_prettyMembers (indent : Nat) (ms : List (Text × Json)) :
    ∀ p ∈ prettyMembers indent ms, Tidy .outside .outside p :=
  match ms with
  | [] => fun p hp => by cases hp
  | (name, v) :: ms => by
      have hmember : Tidy .outside .outside (quote name ++ ':' :: ' ' :: prettyAt indent v) :=
        (tidy_quote name).append (.mark (by decide) (.mark (by decide) (tidy_prettyAt indent v)))
      exact List.forall_mem_cons.mpr ⟨hmember, tidy_prettyMembers indent ms⟩

end

theorem tidy_pretty (v : Json) : Tidy .outside .outside (pretty v) := tidy_prettyAt 0 v

end MeetingMail.Json
