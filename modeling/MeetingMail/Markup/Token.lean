import MeetingMail.Markup.Entity

/-!
Markup as a sequence of tokens, over the elements and attributes that the emails are made of.

* `Element` and `AttributeName` are closed types, each with the name that is written for it.
* `Token.render` is the one place where tokens become text. It escapes attribute values; text
  tokens hold text that is escaped already.
-/

namespace MeetingMail

/-! ### Names -/

inductive Element where
  | html | head | metadata | title | body | table | tr | td | h1 | h2 | h3 | p | div | ul | li
  deriving DecidableEq, Repr

/-- The name of an element as it stands in its tags. -/
def Element.name : Element → Text
  | .html => "html".toList
  | .head => "head".toList
  | .metadata => "meta".toList
  | .title => "title".toList
  | .body => "body".toList
  | .table => "table".toList
  | .tr => "tr".toList
  | .td => "td".toList
  | .h1 => "h1".toList
  | .h2 => "h2".toList
  | .h3 => "h3".toList
  | .p => "p".toList
  | .div => "div".toList
  | .ul => "ul".toList
  | .li => "li".toList

def Element.all : List Element :=
  [.html, .head, .metadata, .title, .body, .table, .tr, .td, .h1, .h2, .h3, .p, .div, .ul, .li]

def Element.ofName? (name : Text) : Option Element := all.find? (·.name == name)

@[simp] theorem Element.ofName?_name (e : Element) : ofName? e.name = some e := by
  cases e <;> decide

theorem Element.name_injective {e f : Element} (h : e.name = f.name) : e = f := by
  simpa using congrArg ofName? h

theorem Element.name_ne {e f : Element} (h : e ≠ f) : e.name ≠ f.name :=
  fun hname => h (name_injective hname)

inductive AttributeName where
  | align | cellpadding | cellspacing | charset | content | name | role | style | width
  deriving DecidableEq, Repr

/-- The name of an attribute as it stands in tags. -/
def AttributeName.text : AttributeName → Text
  | .align => "align".toList
  | .cellpadding => "cellpadding".toList
  | .cellspacing => "cellspacing".toList
  | .charset => "charset".toList
  | .content => "content".toList
  | .name => "name".toList
  | .role => "role".toList
  | .style => "style".toList
  | .width => "width".toList

/-! ### Tokens -/

structure Attribute where
  key : AttributeName
  value : Text
  deriving DecidableEq, Repr

/-- An attribute with a fixed value. -/
def Attribute.of (key : AttributeName) (value : String) : Attribute := ⟨key, value.toList⟩

/-- A piece of markup: the document type, a tag that opens an element, stands alone or closes an
element, or text content. -/
inductive Token where
  | doctype
  | opening (element : Element) (attributes : List Attribute)
  | single (element : Element) (attributes : List Attribute)
  | closing (element : Element)
  | text (content : Escaped)
  deriving DecidableEq

/-- An attribute as it stands in a tag, with the space in front of it. -/
def Attribute.render (a : Attribute) : Text :=
  ' ' :: a.key.text ++ '=' :: '"' :: escapeAttribute a.value ++ ['"']

/-- A token as it stands in a document. -/
def Token.render : Token → Text
  | .doctype => "<!DOCTYPE html>".toList
  | .opening e attributes => '<' :: e.name ++ attributes.flatMap Attribute.render ++ ['>']
  | .single e attributes => '<' :: e.name ++ attributes.flatMap Attribute.render ++ " />".toList
  | .closing e => '<' :: '/' :: e.name ++ ['>']
  | .text content => content.text

/-- Tokens as they stand in a document, one after the other. -/
def renderTokens (ts : List Token) : Text := ts.flatMap Token.render

@[simp] theorem renderTokens_nil : renderTokens [] = [] := rfl

@[simp] theorem renderTokens_cons (t : Token) (ts : List Token) :
    renderTokens (t :: ts) = t.render ++ renderTokens ts := rfl

@[simp] theorem renderTokens_append (ts us : List Token) :
    renderTokens (ts ++ us) = renderTokens ts ++ renderTokens us := by
  simp [renderTokens]

/-! ### Angle brackets -/

theorem Element.name_ne_nil (e : Element) : e.name ≠ [] := by
  cases e <;> decide

theorem Element.bracket_notMem_name {b : Char} (hb : b = '<' ∨ b = '>') (e : Element) :
    b ∉ e.name := by
  rcases hb with rfl | rfl <;> cases e <;> decide

theorem AttributeName.bracket_notMem_text {b : Char} (hb : b = '<' ∨ b = '>') (a : AttributeName) :
    b ∉ a.text := by
  rcases hb with rfl | rfl <;> cases a <;> decide

theorem Attribute.bracket_notMem_render {b : Char} (hb : b = '<' ∨ b = '>') (a : Attribute) :
    b ∉ a.render := by
  have hkey := a.key.bracket_notMem_text hb
  have hvalue := delimiter_notMem_escapeAttribute (or_assoc.mp (.inl hb)) a.value
  rcases hb with rfl | rfl <;> simp [Attribute.render, hkey, hvalue]

theorem Attribute.bracket_notMem_flatMap_render {b : Char} (hb : b = '<' ∨ b = '>')
    (as : List Attribute) : b ∉ as.flatMap Attribute.render := by
  rw [List.mem_flatMap]
  rintro ⟨a, -, ha⟩
  exact a.bracket_notMem_render hb ha

/-- A token is text, or a tag with one angle bracket at each end and none inside. -/
theorem Token.text_or_tag (t : Token) :
    (∃ content, t = .text content) ∨
      (∀ content, t ≠ .text content) ∧ ∃ inside, t.render = '<' :: inside ++ ['>'] ∧
        inside ≠ [] ∧ ∀ b, b = '<' ∨ b = '>' → b ∉ inside := by
  cases t with
  | text content => exact .inl ⟨content, rfl⟩
  | doctype =>
      refine .inr ⟨by simp, "!DOCTYPE html".toList, by decide, by decide, ?_⟩
      rintro b (rfl | rfl) <;> decide
  | closing e =>
      refine .inr ⟨by simp, '/' :: e.name, rfl, List.cons_ne_nil _ _, fun b hb => ?_⟩
      have hname := e.bracket_notMem_name hb
      rcases hb with rfl | rfl <;> simp [hname]
  | opening e as =>
      refine .inr ⟨by simp, e.name ++ as.flatMap Attribute.render, rfl, ?_, fun b hb => ?_⟩
      · exact List.append_ne_nil_of_left_ne_nil e.name_ne_nil _
      · rw [List.mem_append, not_or]
        exact ⟨e.bracket_notMem_name hb, Attribute.bracket_notMem_flatMap_render hb as⟩
  | single e as =>
      refine .inr ⟨by simp, e.name ++ as.flatMap Attribute.render ++ [' ', '/'], ?_, ?_,
        fun b hb => ?_⟩
      · have hslash : " />".toList = [' ', '/'] ++ ['>'] := rfl
        change '<' :: e.name ++ as.flatMap Attribute.render ++ " />".toList = _
        rw [hslash]
        simp only [List.cons_append, List.append_assoc]
      · rw [List.append_assoc]
        exact List.append_ne_nil_of_left_ne_nil e.name_ne_nil _
      · have hend : b ∉ [' ', '/'] := by rcases hb with rfl | rfl <;> decide
        simp only [List.mem_append, not_or]
        exact ⟨⟨e.bracket_notMem_name hb, Attribute.bracket_notMem_flatMap_render hb as⟩, hend⟩

end MeetingMail
