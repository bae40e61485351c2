import MeetingMail.Proofs.Markup.Escaping

/-!
Escaping in passes over the whole text, one for each mark.

* `Text.replaceAll` is one pass: wherever a pattern occurs, another text is put in its place.
* `IsTable.foldl_replaceAll` and `IsTable.foldr_replaceAll`: a pass for each entity of a table, in
  its order, is escaping by the table, and passes that put the marks back undo it in the opposite
  order. The ampersand is the first to be replaced and the last to be put back, as every entity
  has one.
* `escape_passes` says so of text content and of attribute values.
-/

namespace MeetingMail

/-! ### One pass -/

namespace Text

/-- A text with each occurrence of a pattern replaced, from left to right and without overlaps.
An empty pattern occurs nowhere. -/
def replaceAll (t pattern replacement : Text) : Text :=
  match t with
  | [] => []
  | c :: rest =>
      if pattern ≠ [] ∧ pattern <+: c :: rest then
        replacement ++ replaceAll ((c :: rest).drop pattern.length) pattern replacement
      else c :: replaceAll rest pattern replacement
termination_by t.length
decreasing_by
  · rename_i h
    have hpos : 0 < pattern.length := List.length_pos_iff.mpr h.1
    simp only [List.length_drop, List.length_cons]
    omega
  · simp

variable {pattern : Text} (replacement : Text)

@[simp] theorem replaceAll_nil : replaceAll [] pattern replacement = [] := by
  rw [replaceAll]

theorem replaceAll_append (h : pattern ≠ []) (t : Text) :
    replaceAll (pattern ++ t) pattern replacement
      = replacement ++ replaceAll t pattern replacement := by
  obtain ⟨c, others, rfl⟩ := List.exists_cons_of_ne_nil h
  have hprefix : c :: others <+: c :: (others ++ t) := List.prefix_append (c :: others) t
  rw [List.cons_append, replaceAll, if_pos ⟨h, hprefix⟩, ← List.cons_append, List.drop_left]

theorem replaceAll_cons_of_not_prefix {c : Char} {t : Text} (h : ¬ pattern <+: c :: t) :
    replaceAll (c :: t) pattern replacement = c :: replaceAll t pattern replacement := by
  rw [replaceAll, if_neg (fun hboth => h hboth.2)]

theorem replaceAll_self_cons (c : Char) (t : Text) :
    replaceAll (c :: t) [c] replacement = replacement ++ replaceAll t [c] replacement :=
  replaceAll_append replacement (List.cons_ne_nil c []) t

theorem replaceAll_cons_of_ne {c d : Char} (h : d ≠ c) (t : Text) :
    replaceAll (d :: t) [c] replacement = d :: replaceAll t [c] replacement := by
  refine replaceAll_cons_of_not_prefix replacement fun hprefix => ?_
  exact h (List.cons_prefix_cons.mp hprefix).1.symm

theorem replaceAll_char_append (c : Char) (s t : Text) :
    replaceAll (s ++ t) [c] replacement
      = replaceAll s [c] replacement ++ replaceAll t [c] replacement := by
  induction s with
  | nil => rw [List.nil_append, replaceAll_nil, List.nil_append]
  | cons d s ih =>
      rw [List.cons_append]
      by_cases hd : d = c
      · subst hd
        rw [replaceAll_self_cons, replaceAll_self_cons, ih, List.append_assoc]
      · rw [replaceAll_cons_of_ne replacement hd, replaceAll_cons_of_ne replacement hd, ih,
          List.cons_append]

theorem replaceAll_char_of_notMem {c : Char} {t : Text} (h : c ∉ t) :
    replaceAll t [c] replacement = t := by
  induction t with
  | nil => exact replaceAll_nil replacement
  | cons d t ih =>
      rw [List.mem_cons, not_or] at h
      rw [replaceAll_cons_of_ne replacement (Ne.symm h.1), ih h.2]

/-- A text in front that has none of what a pass puts in has not been changed by it. -/
theorem prefix_of_prefix_replaceAll_char {a c : Char} {others u t : Text} (ha : a ∉ u)
    (h : u <+: replaceAll t [c] (a :: others)) : u <+: t := by
  induction t generalizing u with
  | nil => rwa [replaceAll_nil] at h
  | cons d t ih =>
      cases u with
      | nil => exact List.nil_prefix
      | cons b u =>
          rw [List.mem_cons, not_or] at ha
          by_cases hd : d = c
          · subst hd
            rw [replaceAll_self_cons, List.cons_append] at h
            exact absurd (List.cons_prefix_cons.mp h).1.symm ha.1
          · rw [replaceAll_cons_of_ne _ hd] at h
            obtain ⟨rfl, htail⟩ := List.cons_prefix_cons.mp h
            exact List.cons_prefix_cons.mpr ⟨rfl, ih ha.2 htail⟩

end Text

/-! ### An entity for each pass -/

section

variable {es : List Entity} {e : Entity}

theorem entityFor_concat_self (hmark : ∀ f ∈ es, f.mark ≠ e.mark) :
    entityFor (es ++ [e]) e.mark = e.written := by
  have hnone : es.find? (·.mark = e.mark) = none :=
    List.find?_eq_none.mpr fun f hf => by simp [hmark f hf]
  have hself : [e].find? (·.mark = e.mark) = some e := by simp
  rw [entityFor, List.find?_append, hnone, hself]
  rfl

/-- A pass for one more mark makes no difference to what other characters have become, if the mark
is in no entity that is there already. -/
theorem entityFor_concat (hmark : ∀ f ∈ es, f.mark ≠ e.mark) (h : ∀ f ∈ es, e.mark ∉ f.written)
    (c : Char) : entityFor (es ++ [e]) c = (entityFor es c).replaceAll [e.mark] e.written := by
  by_cases hc : e.mark = c
  · subst hc
    rw [entityFor_concat_self hmark, entityFor_of_forall_ne hmark, Text.replaceAll_self_cons,
      Text.replaceAll_nil, List.append_nil]
  · rw [entityFor_concat_of_ne hc, Text.replaceAll_char_of_notMem]
    rcases entityFor_cases es c with ⟨f, hf, -, hwritten⟩ | ⟨-, hself⟩
    · rw [hwritten]
      exact h f hf
    · rw [hself, List.mem_singleton]
      exact hc

theorem escapeWith_concat (hmark : ∀ f ∈ es, f.mark ≠ e.mark) (h : ∀ f ∈ es, e.mark ∉ f.written)
    (t : Text) : escapeWith (es ++ [e]) t = (escapeWith es t).replaceAll [e.mark] e.written := by
  induction t with
  | nil => rw [escapeWith_nil, escapeWith_nil, Text.replaceAll_nil]
  | cons c t ih =>
      rw [escapeWith_cons, escapeWith_cons, Text.replaceAll_char_append,
        entityFor_concat hmark h, ih]

-- A pass for the ampersand after another one escapes the entities of that one again.
example : Text.replaceAll (Text.replaceAll ['<'] ['<'] "&lt;".toList) ['&'] "&amp;".toList
    = "&amp;lt;".toList := by cbv

theorem escapeWith_singleton (e : Entity) (t : Text) :
    escapeWith [e] t = t.replaceAll [e.mark] e.written := by
  have hnil : escapeWith [] t = t := escapeWith_eq_self_iff.mpr (List.forall_mem_nil _)
  have hconcat := @escapeWith_concat [] e (List.forall_mem_nil _) (List.forall_mem_nil _) t
  rwa [List.nil_append, hnil] at hconcat

/-- A pass that takes the mark for its entity undoes the pass before it, unless the entity was
there already. For the ampersand it may have been, as no entity is left of it then. -/
theorem replaceAll_written_replaceAll {t : Text} (h : e.mark = '&' ∨ ¬ e.written <:+: t) :
    (t.replaceAll [e.mark] e.written).replaceAll e.written [e.mark] = t := by
  induction t with
  | nil => rw [Text.replaceAll_nil, Text.replaceAll_nil]
  | cons c t ih =>
      have ht : e.mark = '&' ∨ ¬ e.written <:+: t :=
        h.imp_right fun hinfix hmem => hinfix (hmem.trans (List.suffix_cons c t).isInfix)
      by_cases hc : c = e.mark
      · subst hc
        rw [Text.replaceAll_self_cons, Text.replaceAll_append _ e.written_ne_nil, ih ht,
          List.singleton_append]
      · rw [Text.replaceAll_cons_of_ne _ hc, Text.replaceAll_cons_of_not_prefix, ih ht]
        intro hprefix
        obtain ⟨rfl, hname⟩ := List.cons_prefix_cons.mp hprefix
        rcases h with hmark | hinfix
        · exact hc hmark.symm
        · have hname' : e.name ++ [';'] <+: t :=
            Text.prefix_of_prefix_replaceAll_char e.ampersand_notMem_name_append hname
          exact hinfix (List.cons_prefix_cons.mpr ⟨rfl, hname'⟩).isInfix

end

namespace IsTable

variable {es : List Entity}

/-- Only the entities of the table are in what it escapes. -/
theorem not_written_infix (hes : IsTable es) {e : Entity} (hname : ∀ f ∈ es, f.name ≠ e.name)
    (t : Text) : ¬ e.written <:+: escapeWith es t := by
  intro hinfix
  obtain ⟨u, ⟨rest, rfl⟩, hsuffix⟩ := List.infix_iff_prefix_suffix.mp hinfix
  obtain ⟨f, hf, hwritten⟩ :=
    (isSafe_escapeWith hes t).entity (e.name ++ [';'] ++ rest) hsuffix
  exact hname f hf (Entity.name_eq_of_prefix hwritten (List.prefix_append e.written rest))

theorem mark_notMem_written (hes : IsTable es) {e : Entity} (hmark : ∀ f ∈ es, f.mark ≠ e.mark) :
    ∀ f ∈ es, e.mark ∉ f.written := by
  intro f hf
  obtain ⟨g, hg, hamp⟩ := hes.exists_ampersand
  exact Entity.mark_notMem_written (hamp ▸ (hmark g hg).symm) f

/-- Escaping is a pass for each mark, in the order of the table. -/
theorem foldl_replaceAll (hes : IsTable es) (t : Text) :
    es.foldl (fun u e => u.replaceAll [e.mark] e.written) t = escapeWith es t := by
  induction hes with
  | ampersand e he => exact (escapeWith_singleton e t).symm
  | concat e hes hmark hname ih =>
      rw [List.foldl_append, ih, escapeWith_concat hmark (hes.mark_notMem_written hmark)]
      rfl

/-- The passes are undone from the last one to the first. -/
theorem foldr_replaceAll (hes : IsTable es) (t : Text) :
    es.foldr (fun e u => u.replaceAll e.written [e.mark]) (escapeWith es t) = t := by
  induction hes with
  | ampersand e he =>
      rw [escapeWith_singleton]
      exact replaceAll_written_replaceAll (.inl he)
  | @concat es e hes hmark hname ih =>
      have hundo : (escapeWith (es ++ [e]) t).replaceAll e.written [e.mark] = escapeWith es t := by
        rw [escapeWith_concat hmark (hes.mark_notMem_written hmark)]
        exact replaceAll_written_replaceAll (.inr (hes.not_written_infix hname t))
      rw [List.foldr_append, List.foldr_cons, List.foldr_nil, hundo, ih]

end IsTable

/-- Escaping is a pass for the ampersand, then one for each angle bracket, and for attribute values
one for the quote. Passes in the opposite order, with the ampersand last, undo it. -/
theorem escape_passes (t : Text) :
    escapeText t =
      (t |>.replaceAll ['&'] "&amp;".toList |>.replaceAll ['<'] "&lt;".toList
        |>.replaceAll ['>'] "&gt;".toList) ∧
    escapeAttribute t = (escapeText t).replaceAll ['"'] "&quot;".toList ∧
    (escapeText t |>.replaceAll "&gt;".toList ['>'] |>.replaceAll "&lt;".toList ['<']
      |>.replaceAll "&amp;".toList ['&']) = t ∧
    (escapeAttribute t |>.replaceAll "&quot;".toList ['"'] |>.replaceAll "&gt;".toList ['>']
      |>.replaceAll "&lt;".toList ['<'] |>.replaceAll "&amp;".toList ['&']) = t := by
  have htext := escapeText_eq_escapeWith t
  have hattribute := escapeAttribute_eq_escapeWith t
  refine ⟨?_, ?_, ?_, ?_⟩
  · rw [htext]
    exact (isTable_textEntities.foldl_replaceAll t).symm
  · rw [htext, hattribute]
    exact escapeWith_concat (by decide) (by decide) t
  · rw [htext]
    exact isTable_textEntities.foldr_replaceAll t
  · rw [hattribute]
    exact isTable_attributeEntities.foldr_replaceAll t

end MeetingMail
