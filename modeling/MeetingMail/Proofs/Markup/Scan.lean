import Mathlib.Data.List.TakeWhile
import MeetingMail.Markup.Plain
import MeetingMail.Markup.Token

/-!
Markup read back: what stands in a document, whatever wrote it.

* `scan?` reads a document as tags with the texts between them. It knows no element and no
  attribute: names are runs of letters and digits, values stand between double quotes, and a text
  goes on up to the next opening angle bracket.
* `Reading.decode` puts characters for the entities in the values and texts.
* `scan?_renderTokens`: rendered tokens are read as these tokens, whatever texts and values they
  hold.
-/

namespace MeetingMail

/-! ### Readings -/

/-- A tag, with its names and values as they are spelled. -/
inductive Tag where
  | declaration (content : Text)
  | opening (name : Text) (attributes : List (Text × Text))
  | single (name : Text) (attributes : List (Text × Text))
  | closing (name : Text)
  deriving DecidableEq, Repr

structure Reading where
  lead : Text
  /-- The tags, each with the text between it and the next one. -/
  tags : List (Tag × Text)
  deriving DecidableEq, Repr

def decodeAttributes (attributes : List (Text × Text)) : List (Text × Text) :=
  attributes.map fun (key, value) => (key, decodeAttribute value)

def Tag.decode : Tag → Tag
  | .declaration content => .declaration content
  | .opening name attributes => .opening name (decodeAttributes attributes)
  | .single name attributes => .single name (decodeAttributes attributes)
  | .closing name => .closing name

namespace Reading

/-- A reading with characters in place of entities. -/
def decode (r : Reading) : Reading :=
  ⟨decodeText r.lead, r.tags.map fun (tag, text) => (tag.decode, decodeText text)⟩

/-- A reading behind one more tag. -/
def addTag (tag : Tag) (r : Reading) : Reading := ⟨[], (tag, r.lead) :: r.tags⟩

/-- A reading behind some more text. -/
def addText (t : Text) (r : Reading) : Reading := ⟨t ++ r.lead, r.tags⟩

@[simp] theorem addText_mk (t lead : Text) (tags : List (Tag × Text)) :
    addText t ⟨lead, tags⟩ = ⟨t ++ lead, tags⟩ := rfl

@[simp] theorem lead_addText (t : Text) (r : Reading) : (addText t r).lead = t ++ r.lead := rfl

@[simp] theorem tags_addText (t : Text) (r : Reading) : (addText t r).tags = r.tags := rfl

@[simp] theorem addText_addTag (t : Text) (tag : Tag) (r : Reading) :
    addText t (addTag tag r) = ⟨t, (tag, r.lead) :: r.tags⟩ := by
  simp [addText, addTag]

end Reading

/-! ### The scanner -/

def isNameChar (c : Char) : Bool := c.isAlphanum

/-- A name at the start of a text, and what comes behind it. -/
def name? (t : Text) : Option (Text × Text) :=
  let name := t.takeWhile isNameChar
  if name = [] then none else some (name, t.dropWhile isNameChar)

/-- An attribute at the start of a text, and what comes behind it. -/
def attribute? (t : Text) : Option ((Text × Text) × Text) :=
  match name? t with
  | some (key, '=' :: '"' :: t) =>
      match t.dropWhile (· ≠ '"') with
      | _ :: rest => some ((key, t.takeWhile (· ≠ '"')), rest)
      | [] => none
  | _ => none

theorem length_name?_le {t name rest : Text} (h : name? t = some (name, rest)) :
    rest.length ≤ t.length := by
  rw [name?] at h
  split at h
  · cases h
  · cases h
    exact List.length_dropWhile_le isNameChar t

theorem length_attribute?_lt {t rest : Text} {a : Text × Text}
    (h : attribute? t = some (a, rest)) : rest.length < t.length := by
  rw [attribute?] at h
  split at h
  · rename_i key u hname
    split at h
    · rename_i c after hafter
      cases h
      have := length_name?_le hname
      have := List.length_dropWhile_le (· ≠ '"') u
      simp only [hafter, List.length_cons] at *
      omega
    · cases h
  · cases h

/-- The rest of a tag behind its name and some of its attributes: the tag, and what comes behind
it. -/
def tagEnd? (name : Text) (attributes : List (Text × Text)) : Text → Option (Tag × Text)
  | '>' :: rest => some (.opening name attributes, rest)
  | ' ' :: t =>
      match _h : attribute? t with
      | some (a, rest) => tagEnd? name (attributes ++ [a]) rest
      | none =>
          match t with
          | '/' :: '>' :: rest => some (.single name attributes, rest)
          | _ => none
  | _ => none
termination_by t => t.length
decreasing_by
  have := length_attribute?_lt _h
  simp only [List.length_cons]
  omega

/-- A tag behind its opening angle bracket, and what comes behind it. -/
def tag? : Text → Option (Tag × Text)
  | '!' :: t => (cutAtClosing? t).map fun (content, rest) => (.declaration content, rest)
  | '/' :: t =>
      match name? t with
      | some (name, '>' :: rest) => some (.closing name, rest)
      | _ => none
  | t => (name? t).bind fun (name, rest) => tagEnd? name [] rest

theorem length_tagEnd?_lt {name : Text} {attributes : List (Text × Text)} {t rest : Text}
    {tag : Tag} (h : tagEnd? name attributes t = some (tag, rest)) : rest.length < t.length := by
  fun_induction tagEnd? name attributes t with
  | case1 attributes rest' => simp_all
  | case2 attributes t a rest' hattribute ih =>
      have := length_attribute?_lt hattribute
      have := ih h
      simp only [List.length_cons]
      omega
  | case3 => simp_all; omega
  | case4 => cases h
  | case5 => cases h

theorem length_tag?_lt {t rest : Text} {tag : Tag} (h : tag? t = some (tag, rest)) :
    rest.length < t.length := by
  unfold tag? at h
  split at h
  · rename_i u
    obtain ⟨⟨content, after⟩, hcut, heq⟩ := Option.map_eq_some_iff.mp h
    cases heq
    have := length_cutAtClosing?_lt hcut
    simp only [List.length_cons]
    omega
  · split at h
    · rename_i u name after hname
      cases h
      have := length_name?_le hname
      simp only [List.length_cons] at *
      omega
    · cases h
  · obtain ⟨⟨name, after⟩, hname, hend⟩ := Option.bind_eq_some_iff.mp h
    have := length_name?_le hname
    have := length_tagEnd?_lt hend
    omega

/-- Tags with the texts behind them. -/
def tags? : Text → Option (List (Tag × Text))
  | [] => some []
  | '<' :: t =>
      match _h : tag? t with
      | some (tag, rest) =>
          (tags? (rest.dropWhile (· ≠ '<'))).map ((tag, rest.takeWhile (· ≠ '<')) :: ·)
      | none => none
  | _ => none
termination_by t => t.length
decreasing_by
  have := length_tag?_lt _h
  have := List.length_dropWhile_le (· ≠ '<') rest
  simp only [List.length_cons]
  omega

/-- A document as it is read, if every opening angle bracket of it starts a tag. -/
def scan? (t : Text) : Option Reading :=
  (tags? (t.dropWhile (· ≠ '<'))).map (⟨t.takeWhile (· ≠ '<'), ·⟩)

/-! ### Scanning from left to right -/

theorem scan?_nil : scan? [] = some ⟨[], []⟩ := by
  simp [scan?, tags?]

/-- Text that opens no tag goes in front of what is read behind it. -/
theorem scan?_text_append {t : Text} (h : '<' ∉ t) (rest : Text) :
    scan? (t ++ rest) = (scan? rest).map (Reading.addText t) := by
  have hplain : ∀ c ∈ t, decide (c ≠ '<') = true := by
    intro c hc
    exact decide_eq_true fun heq => h (heq ▸ hc)
  rw [scan?, scan?, List.dropWhile_append_of_pos hplain, List.takeWhile_append_of_pos hplain,
    Option.map_map]
  rfl

/-- A tag goes in front of what is read behind it. -/
theorem scan?_tag_append {tag : Tag} {t rest : Text} (h : tag? t = some (tag, rest)) :
    scan? ('<' :: t) = (scan? rest).map (Reading.addTag tag) := by
  rw [scan?, List.dropWhile_cons_of_neg (by decide), List.takeWhile_cons_of_neg (by decide), tags?]
  split
  · rename_i tag' rest' htag
    rw [h] at htag
    cases htag
    rw [scan?, Option.map_map, Option.map_map]
    rfl
  · rename_i hnone
    rw [h] at hnone
    cases hnone

/-! ### Reading rendered tokens -/

theorem name?_append {name rest : Text} (hne : name ≠ []) (hname : ∀ c ∈ name, isNameChar c = true)
    (hrest : ∀ c ∈ rest.head?, isNameChar c = false) :
    name? (name ++ rest) = some (name, rest) := by
  have htake : rest.takeWhile isNameChar = [] := by
    cases rest with
    | nil => rfl
    | cons c rest => exact List.takeWhile_cons_of_neg (by simp [hrest c rfl])
  have hdrop : rest.dropWhile isNameChar = rest := by
    cases rest with
    | nil => rfl
    | cons c rest => exact List.dropWhile_cons_of_neg (by simp [hrest c rfl])
  simp only [name?, List.takeWhile_append_of_pos hname, List.dropWhile_append_of_pos hname, htake,
    hdrop, List.append_nil]
  rw [if_neg hne]

theorem Element.isNameChar_of_mem_name {e : Element} : ∀ c ∈ e.name, isNameChar c = true := by
  refine List.all_eq_true.mp ?_
  cases e <;> decide

theorem AttributeName.isNameChar_of_mem_text {a : AttributeName} :
    ∀ c ∈ a.text, isNameChar c = true := by
  refine List.all_eq_true.mp ?_
  cases a <;> decide

theorem AttributeName.text_ne_nil (a : AttributeName) : a.text ≠ [] := by
  cases a <;> decide

def Attribute.spelled (a : Attribute) : Text × Text := (a.key.text, escapeAttribute a.value)

theorem attribute?_spelled_append (a : Attribute) (rest : Text) :
    attribute? (a.key.text ++ '=' :: '"' :: (escapeAttribute a.value ++ '"' :: rest))
      = some (a.spelled, rest) := by
  have hvalue : ∀ c ∈ escapeAttribute a.value, decide (c ≠ '"') = true := by
    intro c hc
    refine decide_eq_true fun heq => ?_
    exact delimiter_notMem_escapeAttribute (.inr (.inr rfl)) a.value (heq ▸ hc)
  rw [attribute?, name?_append a.key.text_ne_nil AttributeName.isNameChar_of_mem_text
    (by rintro c ⟨⟩; rfl)]
  simp only [List.dropWhile_append_of_pos hvalue, List.takeWhile_append_of_pos hvalue]
  simp [Attribute.spelled]

theorem tagEnd?_attribute {name t rest : Text} {a : Text × Text} (h : attribute? t = some (a, rest))
    (read : List (Text × Text)) :
    tagEnd? name read (' ' :: t) = tagEnd? name (read ++ [a]) rest := by
  rw [tagEnd?]
  split
  · rename_i a' rest' ha
    rw [h] at ha
    cases ha
    rfl
  · rename_i hnone
    rw [h] at hnone
    cases hnone

theorem tagEnd?_alone (name : Text) (read : List (Text × Text)) (rest : Text) :
    tagEnd? name read (" />".toList ++ rest) = some (.single name read, rest) := by
  have hnone : attribute? ('/' :: '>' :: rest) = none := rfl
  change tagEnd? name read (' ' :: '/' :: '>' :: rest) = _
  rw [tagEnd?]
  split
  · rename_i a rest' ha
    rw [hnone] at ha
    cases ha
  · rfl

/-- Attributes are read one after the other, in front of the end of the tag. -/
theorem tagEnd?_render_append (name : Text) (as : List Attribute) (rest : Text)
    (read : List (Text × Text)) :
    tagEnd? name read (as.flatMap Attribute.render ++ rest)
      = tagEnd? name (read ++ as.map Attribute.spelled) rest := by
  induction as generalizing read with
  | nil => simp
  | cons a as ih =>
      have ha := attribute?_spelled_append a (as.flatMap Attribute.render ++ rest)
      have hcons : (a :: as).flatMap Attribute.render ++ rest
          = ' ' :: (a.key.text ++ '=' :: '"' :: (escapeAttribute a.value
            ++ '"' :: (as.flatMap Attribute.render ++ rest))) := by
        simp [Attribute.render]
      rw [hcons, tagEnd?_attribute ha, ih, List.map_cons, List.append_assoc,
        List.singleton_append]

/-- A tag that opens an element or stands alone is read from its name on. -/
theorem tag?_name_append (e : Element) {rest : Text}
    (hrest : ∀ c ∈ rest.head?, isNameChar c = false) :
    tag? (e.name ++ rest) = tagEnd? e.name [] rest := by
  have hname := name?_append e.name_ne_nil Element.isNameChar_of_mem_name hrest
  obtain ⟨c, cs, hcons⟩ := List.exists_cons_of_ne_nil e.name_ne_nil
  have hc : isNameChar c = true := Element.isNameChar_of_mem_name c (hcons ▸ List.mem_cons_self)
  unfold tag?
  split
  · rename_i t heq
    rw [hcons, List.cons_append] at heq
    cases heq
    exact absurd hc (by decide)
  · rename_i t heq
    rw [hcons, List.cons_append] at heq
    cases heq
    exact absurd hc (by decide)
  · rw [hname, Option.bind_some]

/-- A token in front of what is read behind it. -/
def Token.onto : Token → Reading → Reading
  | .doctype => .addTag (.declaration "DOCTYPE html".toList)
  | .opening e as => .addTag (.opening e.name (as.map Attribute.spelled))
  | .single e as => .addTag (.single e.name (as.map Attribute.spelled))
  | .closing e => .addTag (.closing e.name)
  | .text content => .addText content.text

/-- The reading that consists of some tokens. -/
def Reading.ofTokens (ts : List Token) : Reading := ts.foldr Token.onto ⟨[], []⟩

theorem head?_flatMap_render_append (as : List Attribute) {rest : Text}
    (hrest : ∀ c ∈ rest.head?, isNameChar c = false) :
    ∀ c ∈ (as.flatMap Attribute.render ++ rest).head?, isNameChar c = false := by
  cases as with
  | nil => exact hrest
  | cons a as =>
      intro c hc
      cases hc
      rfl

/-- One rendered token is read as that token, whatever comes after it. -/
theorem scan?_render_append (t : Token) (rest : Text) :
    scan? (t.render ++ rest) = (scan? rest).map t.onto := by
  cases t with
  | text content => exact scan?_text_append (content.bracket_notMem_text (.inl rfl)) rest
  | doctype =>
      have hcut : cutAtClosing? ("DOCTYPE html".toList ++ '>' :: rest)
          = some ("DOCTYPE html".toList, rest) :=
        cutAtClosing?_eq_some_iff.mpr ⟨rfl, by decide⟩
      have htag : tag? ('!' :: ("DOCTYPE html".toList ++ '>' :: rest))
          = some (.declaration "DOCTYPE html".toList, rest) := by
        rw [tag?, hcut, Option.map_some]
      exact scan?_tag_append htag
  | closing e =>
      have htag : tag? ('/' :: (e.name ++ '>' :: rest)) = some (.closing e.name, rest) := by
        rw [tag?, name?_append e.name_ne_nil Element.isNameChar_of_mem_name
          (by rintro c ⟨⟩; rfl)]
        rfl
      change scan? ('<' :: '/' :: (e.name ++ ['>'] ++ rest)) = _
      rw [List.append_assoc]
      exact scan?_tag_append htag
  | opening e as =>
      have htag : tag? (e.name ++ (as.flatMap Attribute.render ++ '>' :: rest))
          = some (.opening e.name (as.map Attribute.spelled), rest) := by
        rw [tag?_name_append e (head?_flatMap_render_append as (by rintro c ⟨⟩; rfl)),
          tagEnd?_render_append, tagEnd?, List.nil_append]
      change scan? ('<' :: (e.name ++ as.flatMap Attribute.render ++ ['>'] ++ rest)) = _
      rw [List.append_assoc, List.append_assoc]
      exact scan?_tag_append htag
  | single e as =>
      have htag : tag? (e.name ++ (as.flatMap Attribute.render ++ (" />".toList ++ rest)))
          = some (.single e.name (as.map Attribute.spelled), rest) := by
        have hend : ∀ c ∈ (" />".toList ++ rest).head?, isNameChar c = false := by
          rintro c ⟨⟩
          rfl
        rw [tag?_name_append e (head?_flatMap_render_append as hend), tagEnd?_render_append,
          tagEnd?_alone, List.nil_append]
      change scan? ('<' :: (e.name ++ as.flatMap Attribute.render ++ " />".toList ++ rest)) = _
      rw [List.append_assoc, List.append_assoc]
      exact scan?_tag_append htag

theorem scan?_renderTokens (ts : List Token) :
    scan? (renderTokens ts) = some (Reading.ofTokens ts) := by
  induction ts with
  | nil => exact scan?_nil
  | cons t ts ih =>
      rw [renderTokens_cons, scan?_render_append, ih]
      rfl

/-! ### Values and texts of a reading -/

/-- A token in front of a reading whose values and texts are decoded. -/
def Token.shownOnto : Token → Reading → Reading
  | .doctype => .addTag (.declaration "DOCTYPE html".toList)
  | .opening e as => .addTag (.opening e.name (as.map fun a => (a.key.text, a.value)))
  | .single e as => .addTag (.single e.name (as.map fun a => (a.key.text, a.value)))
  | .closing e => .addTag (.closing e.name)
  | .text content => .addText content.raw

@[simp] theorem Token.shownOnto_of (t : Text) (r : Reading) :
    (Token.text (.of t)).shownOnto r = .addText t r := by
  rw [shownOnto, Escaped.raw_of]

theorem decodeAttributes_map_spelled (as : List Attribute) :
    decodeAttributes (as.map Attribute.spelled) = as.map fun a => (a.key.text, a.value) := by
  simp [decodeAttributes, Attribute.spelled]

/-- Decoding shows the values and texts that were put into a token. -/
theorem Token.decode_onto (t : Token) (r : Reading) :
    (t.onto r).decode = t.shownOnto r.decode := by
  cases t with
  | doctype | closing e => rfl
  | opening e as =>
      rw [shownOnto, ← decodeAttributes_map_spelled]
      rfl
  | single e as =>
      rw [shownOnto, ← decodeAttributes_map_spelled]
      rfl
  | text content =>
      change Reading.mk (decodeText (content.text ++ r.lead)) _ = _
      rw [content.text_eq_escapeText_raw, decodeText_escapeText_append]
      rfl

theorem Reading.decode_ofTokens (ts : List Token) :
    (ofTokens ts).decode = ts.foldr Token.shownOnto ⟨[], []⟩ := by
  induction ts with
  | nil => rfl
  | cons t ts ih =>
      rw [List.foldr_cons, ← ih]
      exact t.decode_onto (ofTokens ts)

theorem Token.length_tags_onto {b : Char} (hb : b = '<' ∨ b = '>') (t : Token) (r : Reading) :
    (t.onto r).tags.length = t.render.count b + r.tags.length := by
  rcases t.text_or_tag with ⟨content, rfl⟩ | ⟨htag, inside, hrender, -, hinside⟩
  · have hcount : content.text.count b = 0 :=
      List.count_eq_zero.mpr (content.bracket_notMem_text hb)
    change r.tags.length = content.text.count b + r.tags.length
    rw [hcount, Nat.zero_add]
  · have hcount : t.render.count b = 1 := by
      have hnone : inside.count b = 0 := List.count_eq_zero.mpr (hinside b hb)
      rw [hrender]
      rcases hb with rfl | rfl <;> simp [hnone]
    rw [hcount, Nat.add_comm]
    cases t with
    | text content => exact absurd rfl (htag content)
    | doctype | opening _ _ | single _ _ | closing _ => rfl

/-- Angle brackets stand at the two ends of tags and nowhere else. -/
theorem count_bracket_renderTokens {b : Char} (hb : b = '<' ∨ b = '>') (ts : List Token) :
    (renderTokens ts).count b = (Reading.ofTokens ts).tags.length := by
  induction ts with
  | nil => rfl
  | cons t ts ih =>
      rw [renderTokens_cons, List.count_append, ih]
      exact (t.length_tags_onto hb (Reading.ofTokens ts)).symm

end MeetingMail
