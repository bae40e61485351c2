import Mathlib.Data.List.Forall2
import MeetingMail.Proofs.Toml.Decimal
import MeetingMail.Toml.Document

/-!
The lines of a TOML document, by what they are read as.

* `IsLine` relates a text to the statements that it leaves where it stands between two line ends:
  one statement, or none. A value may take several lines of text.
* `parse?_unlines`: a document of such lines is read as their statements, in order.
* `sections_header` and `sections_assignments` cut the statements of a document at its headers, and
  `ofStatements?_header` and `ofStatements?_assignments` build its entries from what is cut.
-/

namespace MeetingMail.Toml

/-! ### Lines -/

/-- A text that is read, wherever it stands between two line ends, as the given statements. -/
inductive IsLine (l : Text) : List Statement → Prop where
  /-- Spaces and a comment. -/
  | blank (h : ∀ rest, AtLineEnd rest → endLine? (l ++ rest) = endLine? rest) :
      IsLine l []
  | statement {s : Statement} (hnone : ∀ rest, endLine? (l ++ rest) = none)
      (h : ∀ rest, AtLineEnd rest → ∃ behind,
        statement? (skipSpaces (l ++ rest)) = some (s, behind) ∧ endLine? behind = endLine? rest) :
      IsLine l [s]

theorem isLine_nil : IsLine [] [] := .blank fun _ _ => rfl

/-- The first of some lines, and what stands behind it. -/
theorem exists_unlines_cons (l : Text) (ls : List Text) :
    ∃ rest, Text.unlines (l :: ls) = l ++ rest ∧ AtLineEnd rest ∧
      endLine? rest = some (Text.unlines ls) ∧ (Text.unlines ls).length ≤ rest.length - 1 := by
  cases ls with
  | nil => exact ⟨[], by simp, nofun, rfl, Nat.le_refl _⟩
  | cons l' ls =>
      refine ⟨'\n' :: Text.unlines (l' :: ls), Text.unlines_cons (List.cons_ne_nil _ _) l, ?_, rfl,
        Nat.le_refl _⟩
      intro c hc
      exact (Option.some.inj hc).symm

theorem endLine?_cons_eq_none {c : Char} (h : c ∉ [' ', '\t', '#', '\n', '\r']) (t : Text) :
    endLine? (c :: t) = none := by
  simp only [List.mem_cons, List.not_mem_nil, or_false, not_or] at h
  have hspace : isSpace c = false := by simp [isSpace, h]
  have hcomment : skipComment (c :: t) = c :: t := by
    unfold skipComment
    split
    · rename_i heq
      exact absurd (List.cons.inj heq).1 h.2.2.1
    · rfl
  rw [endLine?, skipSpaces_cons_of_neg hspace, hcomment]
  dsimp only
  unfold newline?
  split
  · rename_i heq
    exact absurd (List.cons.inj heq).1 h.2.2.2.1
  · rename_i heq
    exact absurd (List.cons.inj heq).1 h.2.2.2.2
  · rfl

/-- A line that starts neither with a space nor with a comment. -/
theorem isLine_of_head {c : Char} {t : Text} {s : Statement} (hc : c ∉ [' ', '\t', '#', '\n', '\r'])
    (h : ∀ rest, AtLineEnd rest → ∃ behind,
      statement? (c :: t ++ rest) = some (s, behind) ∧ endLine? behind = endLine? rest) :
    IsLine (c :: t) [s] := by
  refine .statement (fun rest => endLine?_cons_eq_none hc (t ++ rest)) fun rest hrest => ?_
  have hspace : isSpace c = false :=
    isSpace_eq_false fun hmem => hc (List.mem_append_left ['#', '\n', '\r'] hmem)
  rw [List.cons_append, skipSpaces_cons_of_neg hspace]
  exact h rest hrest

/-- Spaces and a comment leave no statement. -/
theorem isLine_comment {gap comment : Text} (hgap : ∀ c ∈ gap, isSpace c = true)
    (hcomment : ∀ c ∈ comment, isPlain c = true) : IsLine (gap ++ '#' :: comment) [] := by
  refine .blank fun rest hrest => ?_
  have hend : skipComment (skipSpaces rest) = rest ∧ rest.dropWhile isPlain = rest := by
    cases rest with
    | nil => exact ⟨rfl, rfl⟩
    | cons c rest =>
        obtain rfl := hrest c rfl
        exact ⟨rfl, rfl⟩
  have hskip : skipSpaces (gap ++ '#' :: comment ++ rest) = '#' :: (comment ++ rest) := by
    rw [skipSpaces, List.append_assoc, List.dropWhile_append_of_pos hgap]
    rfl
  rw [endLine?, endLine?, hskip, skipComment, List.dropWhile_append_of_pos hcomment, hend.1, hend.2]

theorem endsWord_of_mem {c : Char} (h : c ∈ [' ', '\t', '#', '\n', '\r']) : endsWord c = true := by
  have hends : ∀ d ∈ [' ', '\t', '#', '\n', '\r'], endsWord d = true := by simp [endsWord]
  exact hends c h

/-- Behind a word there may be spaces and a comment up to the end of the line. -/
theorem IsLine.atWordEnd {l : Text} (h : IsLine l []) {rest : Text} (hrest : AtLineEnd rest) :
    AtWordEnd (l ++ rest) := by
  cases h with
  | blank hblank =>
      cases l with
      | nil => exact hrest.atWordEnd
      | cons c t =>
          intro d hd
          obtain rfl : c = d := Option.some.inj hd
          have hend := hblank [] nofun
          by_contra hword
          have hc : c ∉ [' ', '\t', '#', '\n', '\r'] := fun hmem => hword (endsWord_of_mem hmem)
          rw [List.cons_append, endLine?_cons_eq_none hc] at hend
          cases hend

/-- Lines are read as their statements. -/
theorem statementsUpTo?_unlines {ls : List Text} {ss : List (List Statement)}
    (h : List.Forall₂ IsLine ls ss) {bound : Nat} (hbound : (Text.unlines ls).length ≤ bound) :
    statementsUpTo? bound (Text.unlines ls) = some ss.flatten := by
  -- The bound counts lines, and the length of the text is enough: each line that leaves a
  -- statement, and each line feed, takes at least one character off it.
  induction h generalizing bound with
  | nil => cases bound <;> rfl
  | @cons l s ls ss hl _ ih =>
      obtain ⟨rest, hunlines, hrest, hend, hlength⟩ := exists_unlines_cons l ls
      rw [hunlines, List.length_append] at hbound
      rw [hunlines, List.flatten_cons]
      cases hl with
      | blank hblank =>
          have hskip := (hblank rest hrest).trans hend
          rcases htext : l ++ rest with _ | ⟨c, t⟩
          · rw [htext] at hskip
            rw [← Option.some.inj hskip] at ih
            exact ih (Nat.zero_le _)
          · have htake := congrArg List.length htext
            rw [List.length_append, List.length_cons] at htake
            obtain ⟨bound, rfl⟩ := Nat.exists_eq_add_one_of_ne_zero (by omega : bound ≠ 0)
            rw [htext] at hskip
            rw [statementsUpTo?, hskip]
            exact ih (by omega)
      | @statement s hnone hstatement =>
          obtain ⟨behind, hread, hbehind⟩ := hstatement rest hrest
          have hskip := hnone rest
          rcases htext : l ++ rest with _ | ⟨c, t⟩
          · rw [htext] at hskip
            cases hskip
          · have htake := congrArg List.length htext
            rw [List.length_append, List.length_cons] at htake
            obtain ⟨bound, rfl⟩ := Nat.exists_eq_add_one_of_ne_zero (by omega : bound ≠ 0)
            rw [htext] at hskip hread
            rw [statementsUpTo?, hskip]
            dsimp only
            rw [hread, Option.bind_some, hbehind, hend, Option.bind_some, ih (by omega)]
            rfl

/-- No line starts with a byte order mark. -/
theorem IsLine.head?_ne {l : Text} {ss : List Statement} (h : IsLine l ss) :
    l.head? ≠ some '\uFEFF' := by
  intro heq
  obtain ⟨l, rfl⟩ : ∃ t, l = '\uFEFF' :: t := by
    cases l with
    | nil => cases heq
    | cons c t => exact ⟨t, by rw [Option.some.inj heq]⟩
  cases h with
  | blank hblank =>
      have hend := hblank [] nofun
      rw [List.cons_append, endLine?_cons_eq_none (by decide)] at hend
      cases hend
  | statement _ hstatement =>
      obtain ⟨behind, hread, -⟩ := hstatement [] nofun
      rw [List.cons_append, skipSpaces_cons_of_neg rfl] at hread
      have hkey (t : Text) : key? ('\uFEFF' :: t) = none := by
        have hpart : keyPart? ('\uFEFF' :: t) = none := rfl
        have hpath : path? ('\uFEFF' :: t) = none := by
          unfold path?
          split
          · rfl
          · rename_i hsome
            rw [hpart] at hsome
            cases hsome
        rw [key?, hpath]
        rfl
      have hnone (t : Text) : statement? ('\uFEFF' :: t) = none := by
        change (pair? skipSpaces value? _).map _ = _
        rw [pair?, hkey]
        rfl
      rw [hnone] at hread
      cases hread

theorem dropByteOrderMark_unlines {ls : List Text} {ss : List (List Statement)}
    (h : List.Forall₂ IsLine ls ss) : dropByteOrderMark (Text.unlines ls) = Text.unlines ls := by
  have hhead : (Text.unlines ls).head? ≠ some '\uFEFF' := by
    cases h with
    | nil => simp [Text.unlines]
    | @cons l s ls ss hl _ =>
        obtain ⟨rest, hunlines, hrest, -⟩ := exists_unlines_cons l ls
        rw [hunlines]
        cases l with
        | nil => exact fun heq => absurd (hrest _ heq) (by decide)
        | cons c t => exact hl.head?_ne
  unfold dropByteOrderMark
  split
  · rename_i heq
    exact absurd (congrArg List.head? heq) hhead
  · rfl

/-- A document of lines is read as the statements of its lines, in order. -/
theorem parse?_unlines {ls : List Text} {ss : List (List Statement)}
    (h : List.Forall₂ IsLine ls ss) :
    parse? (Text.unlines ls) = Entries.ofStatements? ss.flatten := by
  rw [parse?, dropByteOrderMark_unlines h, statements?,
    statementsUpTo?_unlines h (Nat.le_refl _), Option.bind_some]

/-! ### Sections -/

theorem sections_assignments (body : List Assignment) (ss : List Statement) :
    sections (body.map .assignment ++ ss) = (body ++ (sections ss).1, (sections ss).2) := by
  induction body with
  | nil => rfl
  | cons a body ih => rw [List.map_cons, List.cons_append, sections, ih]; rfl

theorem sections_header (ss : List Statement) (h : Header) (ss' : List Statement) :
    sections (ss ++ .header h :: ss')
      = ((sections ss).1, (sections ss).2 ++ (h, (sections ss').1) :: (sections ss').2) := by
  induction ss with
  | nil => rfl
  | cons s ss ih =>
      cases s with
      | assignment a => rw [List.cons_append, sections, ih]; rfl
      | header h' => rw [List.cons_append, sections, ih]; rfl

theorem ofStatements?_header (before : List Statement) (h : Header) (rest : List Statement) :
    Entries.ofStatements? (before ++ .header h :: rest)
      = (Entries.ofStatements? before).bind fun es =>
          (es.openSection? (h, (sections rest).1)).bind fun es =>
            (sections rest).2.foldlM Entries.openSection? es := by
  rw [Entries.ofStatements?, Entries.ofStatements?, sections_header]
  dsimp only
  simp only [List.foldlM_append, List.foldlM_cons, Option.bind_eq_bind, Option.bind_assoc]

theorem ofStatements?_assignments (body : List Assignment) (rest : List Statement) :
    Entries.ofStatements? (body.map .assignment ++ rest)
      = (Entries.assignAll? (body ++ (sections rest).1) []).bind fun es =>
          (sections rest).2.foldlM Entries.openSection? es := by
  rw [Entries.ofStatements?, sections_assignments]

end MeetingMail.Toml
