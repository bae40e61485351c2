import Mathlib.Data.Set.Function
import MeetingMail.Markup.Entity

/-!
Escaping by a table of entities, and the texts that it leads to.

* `Entity` holds a mark and the name that stands for it, and `escapeWith` writes the entities of a
  table for its marks. Both ways to escape are of this kind, with `textEntities` and
  `attributeEntities` (`escapeText_eq_escapeWith`, `escapeAttribute_eq_escapeWith`).
* `IsSafe` says of a text, with no escaping in it, that the marks of a table are gone from it and
  that each ampersand begins an entity of the table.
* `escape_bijOn`: both ways to escape are bijections onto their safe texts, and decoding is the
  inverse.
-/

namespace MeetingMail

/-! ### Entities -/

/-- A mark, and the name of the entity that stands for it. -/
structure Entity where
  mark : Char
  name : Text
  all_isAlpha_name : name.all Char.isAlpha = true := by decide
  mark_apart : mark.isAlpha = false ∧ mark ≠ ';' := by decide

namespace Entity

/-- An entity as it stands in a text. -/
def written (e : Entity) : Text := '&' :: (e.name ++ [';'])

def amp : Entity := { mark := '&', name := "amp".toList }

def lt : Entity := { mark := '<', name := "lt".toList }

def gt : Entity := { mark := '>', name := "gt".toList }

def quot : Entity := { mark := '"', name := "quot".toList }

theorem written_ne_nil (e : Entity) : e.written ≠ [] := List.cons_ne_nil _ _

theorem isAlpha_of_mem_name (e : Entity) : ∀ c ∈ e.name, c.isAlpha = true :=
  List.all_eq_true.mp e.all_isAlpha_name

theorem written_append (e : Entity) (rest : Text) :
    e.written ++ rest = '&' :: (e.name ++ ';' :: rest) := by
  simp [written]

theorem notMem_name_append {c : Char} (hc : c.isAlpha = false ∧ c ≠ ';') (e : Entity) :
    c ∉ e.name ++ [';'] := by
  rw [List.mem_append, List.mem_singleton, not_or]
  refine ⟨fun hmem => ?_, hc.2⟩
  have halpha := e.isAlpha_of_mem_name c hmem
  rw [hc.1] at halpha
  cases halpha

theorem ampersand_notMem_name_append (e : Entity) : '&' ∉ e.name ++ [';'] :=
  e.notMem_name_append (by decide)

/-- Of the marks, only the ampersand is written in entities. -/
theorem mark_notMem_written {e : Entity} (h : e.mark ≠ '&') (f : Entity) : e.mark ∉ f.written := by
  rw [written, List.mem_cons, not_or]
  exact ⟨h, f.notMem_name_append e.mark_apart⟩

theorem takeWhile_name_append (e : Entity) (rest : Text) :
    (e.name ++ ';' :: rest).takeWhile Char.isAlpha = e.name := by
  rw [List.takeWhile_append_of_pos e.isAlpha_of_mem_name, List.takeWhile_cons_of_neg (by decide),
    List.append_nil]

/-- A name ends at its semicolon, so entities of different names do not begin the same text. -/
theorem name_eq_of_prefix {e f : Entity} {t : Text} (he : e.written <+: t) (hf : f.written <+: t) :
    e.name = f.name := by
  obtain ⟨rest, rfl⟩ := he
  obtain ⟨rest', heq⟩ := hf
  rw [written_append, written_append, List.cons.injEq] at heq
  rw [← e.takeWhile_name_append rest, ← heq.2, takeWhile_name_append]

end Entity

/-- The entities that text content is written with. -/
def textEntities : List Entity := [.amp, .lt, .gt]

/-- The entities that attribute values are written with. -/
def attributeEntities : List Entity := textEntities ++ [.quot]

/-- A list of entities in which no mark and no name comes twice, and the ampersand comes first. -/
inductive IsTable : List Entity → Prop where
  | ampersand (e : Entity) : e.mark = '&' → IsTable [e]
  | concat {es : List Entity} (e : Entity) : IsTable es → (∀ f ∈ es, f.mark ≠ e.mark) →
      (∀ f ∈ es, f.name ≠ e.name) → IsTable (es ++ [e])

theorem isTable_textEntities : IsTable textEntities :=
  .concat .gt (.concat .lt (.ampersand .amp rfl) (by decide) (by decide)) (by decide) (by decide)

theorem isTable_attributeEntities : IsTable attributeEntities :=
  .concat .quot isTable_textEntities (by decide) (by decide)

namespace IsTable

variable {es : List Entity}

theorem exists_ampersand (hes : IsTable es) : ∃ e ∈ es, e.mark = '&' := by
  induction hes with
  | ampersand e he => exact ⟨e, List.mem_singleton_self e, he⟩
  | concat e hes hmark hname ih =>
      obtain ⟨f, hf, hmark⟩ := ih
      exact ⟨f, List.mem_append_left [e] hf, hmark⟩

theorem eq_of_mark_eq (hes : IsTable es) {e f : Entity} (he : e ∈ es) (hf : f ∈ es)
    (h : e.mark = f.mark) : e = f := by
  induction hes with
  | ampersand g hg => rw [List.mem_singleton.mp he, List.mem_singleton.mp hf]
  | concat g hes hmark hname ih =>
      rcases List.mem_append.mp he with he | he <;> rcases List.mem_append.mp hf with hf | hf
      · exact ih he hf
      · exact absurd (List.mem_singleton.mp hf ▸ h) (hmark e he)
      · exact absurd (List.mem_singleton.mp he ▸ h.symm) (hmark f hf)
      · rw [List.mem_singleton.mp he, List.mem_singleton.mp hf]

end IsTable

/-! ### Escaping by a table -/

/-- What stands for a character where the entities of a table are in use. -/
def entityFor (es : List Entity) (c : Char) : Text :=
  match es.find? (·.mark = c) with
  | some e => e.written
  | none => [c]

/-- A text with entities in place of the marks. -/
def escapeWith (es : List Entity) (t : Text) : Text := t.flatMap (entityFor es)

@[simp] theorem escapeWith_nil (es : List Entity) : escapeWith es [] = [] := rfl

@[simp] theorem escapeWith_cons (es : List Entity) (c : Char) (t : Text) :
    escapeWith es (c :: t) = entityFor es c ++ escapeWith es t := rfl

theorem entityFor_cases (es : List Entity) (c : Char) :
    (∃ e ∈ es, e.mark = c ∧ entityFor es c = e.written) ∨
      (∀ e ∈ es, e.mark ≠ c) ∧ entityFor es c = [c] := by
  unfold entityFor
  split
  · rename_i e hfind
    have hmark := List.find?_some hfind
    exact .inl ⟨e, List.mem_of_find?_eq_some hfind, of_decide_eq_true hmark, rfl⟩
  · rename_i hfind
    refine .inr ⟨fun e he hmark => ?_, rfl⟩
    exact List.find?_eq_none.mp hfind e he (decide_eq_true hmark)

theorem entityFor_of_mem {es : List Entity} (hes : IsTable es) {e : Entity} (he : e ∈ es) :
    entityFor es e.mark = e.written := by
  rcases entityFor_cases es e.mark with ⟨f, hf, hmark, hwritten⟩ | ⟨hnone, -⟩
  · rw [hwritten, hes.eq_of_mark_eq hf he hmark]
  · exact absurd rfl (hnone e he)

theorem entityFor_of_forall_ne {es : List Entity} {c : Char} (h : ∀ e ∈ es, e.mark ≠ c) :
    entityFor es c = [c] := by
  rcases entityFor_cases es c with ⟨e, he, hmark, -⟩ | ⟨-, hself⟩
  · exact absurd hmark (h e he)
  · exact hself

/-- A further entity matters for its own mark only. -/
theorem entityFor_concat_of_ne {es : List Entity} {e : Entity} {c : Char} (h : e.mark ≠ c) :
    entityFor (es ++ [e]) c = entityFor es c := by
  have hlast : [e].find? (·.mark = c) = none := by simp [h]
  rw [entityFor, entityFor, List.find?_append, hlast, Option.or_none]

theorem textEntity_eq_entityFor (c : Char) : textEntity c = entityFor textEntities c := by
  unfold textEntity
  split
  · rfl
  · rfl
  · rfl
  · rename_i hamp hlt hgt
    refine (entityFor_of_forall_ne fun e he => ?_).symm
    simp only [textEntities, List.mem_cons, List.not_mem_nil, or_false] at he
    rcases he with rfl | rfl | rfl
    · exact Ne.symm hamp
    · exact Ne.symm hlt
    · exact Ne.symm hgt

theorem attributeEntity_eq_entityFor (c : Char) :
    attributeEntity c = entityFor attributeEntities c := by
  unfold attributeEntity
  split
  · rfl
  · rename_i hquote
    rw [textEntity_eq_entityFor]
    exact (entityFor_concat_of_ne (Ne.symm hquote)).symm

theorem escapeText_eq_escapeWith (t : Text) : escapeText t = escapeWith textEntities t :=
  congrArg t.flatMap (funext textEntity_eq_entityFor)

theorem escapeAttribute_eq_escapeWith (t : Text) :
    escapeAttribute t = escapeWith attributeEntities t :=
  congrArg t.flatMap (funext attributeEntity_eq_entityFor)

theorem length_le_length_escapeWith (es : List Entity) (t : Text) :
    t.length ≤ (escapeWith es t).length := by
  induction t with
  | nil => exact Nat.le_refl 0
  | cons c t ih =>
      rw [escapeWith_cons, List.length_append, List.length_cons]
      rcases entityFor_cases es c with ⟨e, -, -, hwritten⟩ | ⟨-, hself⟩
      · rw [hwritten, Entity.written, List.length_cons]
        omega
      · rw [hself, List.length_singleton]
        omega

/-- A text is its own escape exactly if it has none of the marks: entities are longer than marks. -/
theorem escapeWith_eq_self_iff {es : List Entity} {t : Text} :
    escapeWith es t = t ↔ ∀ e ∈ es, e.mark ∉ t := by
  induction t with
  | nil => simp
  | cons c t ih =>
      rcases entityFor_cases es c with ⟨e, he, rfl, hwritten⟩ | ⟨hnone, hself⟩
      · have hlong : (e.mark :: t).length < (escapeWith es (e.mark :: t)).length := by
          have hle := length_le_length_escapeWith es t
          rw [escapeWith_cons, hwritten, Entity.written]
          simp only [List.length_cons, List.length_append]
          omega
        constructor
        · intro h
          rw [h] at hlong
          exact absurd hlong (Nat.lt_irrefl _)
        · intro h
          exact absurd List.mem_cons_self (h e he)
      · rw [escapeWith_cons, hself, List.singleton_append, List.cons.injEq, ih]
        constructor
        · rintro ⟨-, ht⟩ e he hmem
          rcases List.mem_cons.mp hmem with hmark | hmem
          · exact hnone e he hmark
          · exact ht e he hmem
        · intro h
          exact ⟨rfl, fun e he hmem => h e he (List.mem_cons_of_mem c hmem)⟩

/-! ### Safe texts -/

/-- None of the marks is left in a text, except for ampersands that begin entities. -/
structure IsSafe (es : List Entity) (t : Text) : Prop where
  mark_notMem : ∀ e ∈ es, e.mark ≠ '&' → e.mark ∉ t
  entity : ∀ after, '&' :: after <:+ t → ∃ e ∈ es, e.written <+: '&' :: after

theorem IsSafe.of_suffix {es : List Entity} {t u : Text} (h : IsSafe es t) (hu : u <:+ t) :
    IsSafe es u where
  mark_notMem e he hmark hmem := h.mark_notMem e he hmark (hu.subset hmem)
  entity after hafter := h.entity after (hafter.trans hu)

theorem IsSafe.nil (es : List Entity) : IsSafe es [] where
  mark_notMem _ _ _ := List.not_mem_nil
  entity after hafter := by cases List.suffix_nil.mp hafter

/-- What begins with a character that is not in front of it stands behind it. -/
theorem suffix_of_suffix_append {c : Char} {u t after : Text} (hc : c ∉ u)
    (h : c :: after <:+ u ++ t) : c :: after <:+ t := by
  induction u with
  | nil => exact h
  | cons d u ih =>
      rw [List.mem_cons, not_or] at hc
      rcases List.suffix_cons_iff.mp h with heq | hsuffix
      · exact absurd (List.cons.inj heq).1 hc.1
      · exact ih hc.2 hsuffix

/-- One character is written safely in front of a safe text. -/
theorem IsSafe.entityFor_append {es : List Entity} (hes : IsTable es) {t : Text}
    (h : IsSafe es t) (c : Char) : IsSafe es (entityFor es c ++ t) := by
  rcases entityFor_cases es c with ⟨e, he, -, hwritten⟩ | ⟨hnone, hself⟩
  · rw [hwritten]
    constructor
    · intro f hf hmark hmem
      rcases List.mem_append.mp hmem with hmem | hmem
      · exact f.mark_notMem_written hmark e hmem
      · exact h.mark_notMem f hf hmark hmem
    · intro after hafter
      rcases List.suffix_cons_iff.mp hafter with heq | hsuffix
      · exact ⟨e, he, heq ▸ List.prefix_append e.written t⟩
      · exact h.entity after (suffix_of_suffix_append e.ampersand_notMem_name_append hsuffix)
  · rw [hself]
    constructor
    · intro f hf hmark hmem
      rcases List.mem_cons.mp hmem with heq | hmem
      · exact hnone f hf heq
      · exact h.mark_notMem f hf hmark hmem
    · intro after hafter
      obtain ⟨f, hf, hamp⟩ := hes.exists_ampersand
      have hc : '&' ∉ [c] := by
        rw [List.mem_singleton, ← hamp]
        exact hnone f hf
      exact h.entity after (suffix_of_suffix_append hc hafter)

theorem isSafe_escapeWith {es : List Entity} (hes : IsTable es) (t : Text) :
    IsSafe es (escapeWith es t) := by
  induction t with
  | nil => exact .nil es
  | cons c t ih => exact ih.entityFor_append hes c

/-- Every safe text comes from escaping. -/
theorem IsSafe.exists_escapeWith {es : List Entity} (hes : IsTable es) {t : Text}
    (h : IsSafe es t) : ∃ s, escapeWith es s = t := by
  match t with
  | [] => exact ⟨[], rfl⟩
  | c :: rest =>
      by_cases hc : c = '&'
      · subst hc
        obtain ⟨e, he, rest', hrest⟩ := h.entity rest List.suffix_rfl
        obtain ⟨s, rfl⟩ := (h.of_suffix ⟨e.written, hrest⟩).exists_escapeWith hes
        exact ⟨e.mark :: s, by rw [escapeWith_cons, entityFor_of_mem hes he, hrest]⟩
      · have hnone : ∀ e ∈ es, e.mark ≠ c := by
          rintro e he rfl
          exact h.mark_notMem e he hc List.mem_cons_self
        obtain ⟨s, rfl⟩ := (h.of_suffix (List.suffix_cons c rest)).exists_escapeWith hes
        exact ⟨c :: s, by rw [escapeWith_cons, entityFor_of_forall_ne hnone, List.singleton_append]⟩
termination_by t.length
decreasing_by
  · have hlength := congrArg List.length hrest
    simp only [Entity.written, List.length_append, List.length_cons] at hlength ⊢
    omega
  · simp

/-! ### Decoding -/

section

variable {es : List Entity} {decode : Text → Text}

/-- Where decoding undoes the escaping by a table, it is the inverse between all texts and the
safe ones. -/
theorem invOn_escapeWith (hes : IsTable es) (h : ∀ t, decode (escapeWith es t) = t) :
    Set.InvOn decode (escapeWith es) Set.univ {t | IsSafe es t} := by
  constructor
  · intro t _
    exact h t
  · intro t ht
    obtain ⟨s, rfl⟩ := ht.exists_escapeWith hes
    rw [h]

theorem bijOn_escapeWith (hes : IsTable es) (h : ∀ t, decode (escapeWith es t) = t) :
    Set.BijOn (escapeWith es) Set.univ {t | IsSafe es t} :=
  (invOn_escapeWith hes h).bijOn (fun t _ => isSafe_escapeWith hes t) (fun _ _ => Set.mem_univ _)

end

/-- Both ways to escape are bijections onto their safe texts, with decoding as the inverse. Text
content stays as it is where none of its three marks is in it, whether it has been escaped before
or not. -/
theorem escape_bijOn :
    (Set.BijOn escapeText Set.univ {t | IsSafe textEntities t} ∧
      Set.InvOn decodeText escapeText Set.univ {t | IsSafe textEntities t}) ∧
    (Set.BijOn escapeAttribute Set.univ {t | IsSafe attributeEntities t} ∧
      Set.InvOn decodeAttribute escapeAttribute Set.univ {t | IsSafe attributeEntities t}) ∧
    ∀ t, (escapeText t = t ↔ '&' ∉ t ∧ '<' ∉ t ∧ '>' ∉ t) ∧
      (escapeText (escapeText t) ≠ escapeText t ↔ escapeText t ≠ t) := by
  have htext : escapeText = escapeWith textEntities := funext escapeText_eq_escapeWith
  have hattribute : escapeAttribute = escapeWith attributeEntities :=
    funext escapeAttribute_eq_escapeWith
  have hdecode : ∀ t, decodeText (escapeWith textEntities t) = t :=
    fun t => htext ▸ decodeText_escapeText t
  have hdecode' : ∀ t, decodeAttribute (escapeWith attributeEntities t) = t :=
    fun t => hattribute ▸ decodeAttribute_escapeAttribute t
  refine ⟨?_, ?_, fun t => ⟨?_, ?_⟩⟩
  · rw [htext]
    exact ⟨bijOn_escapeWith isTable_textEntities hdecode,
      invOn_escapeWith isTable_textEntities hdecode⟩
  · rw [hattribute]
    exact ⟨bijOn_escapeWith isTable_attributeEntities hdecode',
      invOn_escapeWith isTable_attributeEntities hdecode'⟩
  · rw [htext, escapeWith_eq_self_iff]
    simp [textEntities, Entity.amp, Entity.lt, Entity.gt]
  · exact not_congr ⟨escapeText_injective, congrArg escapeText⟩

end MeetingMail
