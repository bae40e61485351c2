import MeetingMail.Markup.Plain
import MeetingMail.Markup.Token

/-!
Rendered tokens without the tags.

* `plainText` knows nothing of quotes: it cuts a tag off at the first closing angle bracket. This
  is right for tokens because no value and no text of theirs holds an angle bracket.
* `plainText_renderTokens`: what is left of rendered tokens is the texts among them.
-/

namespace MeetingMail

/-! ### One step -/

theorem plainText_cons_of_ne {c : Char} (h : c ≠ '<') (t : Text) :
    plainText (c :: t) = c :: plainText t := by
  rw [plainText, if_neg h]

theorem plainText_unclosed {t : Text} (h : '>' ∉ t) : plainText ('<' :: t) = '<' :: t := by
  have hclosing : ∀ inside after, cutAtClosing? t ≠ some (inside, after) := by
    intro inside after hcut
    obtain ⟨rfl, -⟩ := cutAtClosing?_eq_some_iff.mp hcut
    exact h (List.mem_append_right inside List.mem_cons_self)
  rw [plainText, if_pos rfl]
  split
  · rfl
  · rename_i hcut
    exact absurd hcut (hclosing _ _)
  · rename_i hcut
    exact absurd hcut (hclosing _ _)

theorem plainText_closed_at_once (t : Text) :
    plainText ('<' :: '>' :: t) = '<' :: plainText ('>' :: t) := by
  have hclosing : cutAtClosing? ('>' :: t) = some ([], t) :=
    cutAtClosing?_eq_some_iff.mpr ⟨rfl, List.not_mem_nil⟩
  rw [plainText, if_pos rfl]
  split
  · rename_i hcut
    rw [hclosing] at hcut
    cases hcut
  · rfl
  · rename_i hcut
    rw [hclosing] at hcut
    cases hcut

theorem plainText_text_append {t : Text} (h : '<' ∉ t) (rest : Text) :
    plainText (t ++ rest) = t ++ plainText rest := by
  induction t with
  | nil => rfl
  | cons c t ih =>
      rw [List.mem_cons, not_or] at h
      obtain ⟨hc, ht⟩ := h
      rw [List.cons_append, plainText_cons_of_ne (Ne.symm hc), ih ht, List.cons_append]

theorem plainText_of_opening_notMem {t : Text} (h : '<' ∉ t) : plainText t = t := by
  have happend := plainText_text_append h []
  rwa [List.append_nil, plainText, List.append_nil] at happend

theorem plainText_tag_append {inside : Text} (hne : inside ≠ []) (h : '>' ∉ inside)
    (rest : Text) : plainText ('<' :: (inside ++ '>' :: rest)) = plainText rest := by
  have hcut : cutAtClosing? (inside ++ '>' :: rest) = some (inside, rest) :=
    cutAtClosing?_eq_some_iff.mpr ⟨rfl, h⟩
  rw [plainText, if_pos rfl]
  split
  · rename_i hnone
    rw [hcut] at hnone
    cases hnone
  · rename_i after hempty
    rw [hcut] at hempty
    cases hempty
    exact absurd rfl hne
  · rename_i c cs after hsome
    rw [hcut] at hsome
    cases hsome
    rfl

/-! ### Rendered tokens -/

/-- The text of a token. A tag has none. -/
def Token.content : Token → Text
  | .text content => content.text
  | .doctype | .opening _ _ | .single _ _ | .closing _ => []

namespace Token

@[simp] theorem content_text (content : Escaped) : (text content).content = content.text := rfl

@[simp] theorem content_doctype : doctype.content = [] := rfl

@[simp] theorem content_opening (e : Element) (as : List Attribute) :
    (opening e as).content = [] := rfl

@[simp] theorem content_single (e : Element) (as : List Attribute) :
    (single e as).content = [] := rfl

@[simp] theorem content_closing (e : Element) : (closing e).content = [] := rfl

end Token

theorem Token.bracket_notMem_content {b : Char} (hb : b = '<' ∨ b = '>') (t : Token) :
    b ∉ t.content := by
  cases t with
  | text content => exact content.bracket_notMem_text hb
  | doctype | opening _ _ | single _ _ | closing _ => exact List.not_mem_nil

/-- One rendered token in front of anything leaves its text there. -/
theorem plainText_render_append (t : Token) (rest : Text) :
    plainText (t.render ++ rest) = t.content ++ plainText rest := by
  rcases t.text_or_tag with ⟨content, rfl⟩ | ⟨htag, inside, hrender, hne, hinside⟩
  · exact plainText_text_append (content.bracket_notMem_text (.inl rfl)) rest
  · have hcontent : t.content = [] := by
      cases t with
      | text content => exact absurd rfl (htag content)
      | doctype | opening _ _ | single _ _ | closing _ => rfl
    rw [hrender, hcontent, List.nil_append, List.cons_append, List.cons_append, List.append_assoc,
      List.singleton_append]
    exact plainText_tag_append hne (hinside '>' (.inr rfl)) rest

theorem plainText_renderTokens (ts : List Token) :
    plainText (renderTokens ts) = ts.flatMap Token.content := by
  induction ts with
  | nil => rw [renderTokens_nil, plainText, List.flatMap_nil]
  | cons t ts ih =>
      rw [renderTokens_cons, plainText_render_append, ih, List.flatMap_cons]

theorem bracket_notMem_flatMap_content {b : Char} (hb : b = '<' ∨ b = '>') (ts : List Token) :
    b ∉ ts.flatMap Token.content := by
  rw [List.mem_flatMap]
  rintro ⟨t, -, ht⟩
  exact t.bracket_notMem_content hb ht

end MeetingMail
