import MeetingMail.Proofs.Markup.Scan

/-!
The tree that the tags of a document describe.

* `Node` is the type of the trees, and `allNodes` lists the nodes of a document at any depth.
* `grow?` is a stack machine. A tag that opens an element is put on the stack, and a tag that
  closes one has to match the tag on top. At the end the stack has to be empty.
* `grow?_flatMap_tags`: from the tags of a tree the machine grows that tree again.
-/

namespace MeetingMail

/-! ### Trees -/

/-- A node of a document, with the text up to the next tag. Declarations and tags that stand alone
are leaves. -/
inductive Node where
  | declaration (content tail : Text)
  | single (name : Text) (attributes : List (Text × Text)) (tail : Text)
  | element (name : Text) (attributes : List (Text × Text)) (text : Text) (children : List Node)
      (tail : Text)

namespace Node

def name : Node → Text
  | declaration _ _ => []
  | single name _ _ => name
  | element name _ _ _ _ => name

def attributes : Node → List (Text × Text)
  | declaration _ _ => []
  | single _ attributes _ => attributes
  | element _ attributes _ _ _ => attributes

/-- The text in front of the first child. -/
def text : Node → Text
  | element _ _ text _ _ => text
  | _ => []

def children : Node → List Node
  | element _ _ _ children _ => children
  | _ => []

/-- The text between the node and the next tag. -/
def tail : Node → Text
  | declaration _ tail => tail
  | single _ _ tail => tail
  | element _ _ _ _ tail => tail

def tags : Node → List (Tag × Text)
  | declaration content tail => [(.declaration content, tail)]
  | single name attributes tail => [(.single name attributes, tail)]
  | element name attributes text children tail =>
      (.opening name attributes, text) :: children.flatMap tags ++ [(.closing name, tail)]

/-- A node and all that stands inside it. -/
def subtree : Node → List Node
  | declaration content tail => [declaration content tail]
  | single name attributes tail => [single name attributes tail]
  | element name attributes text children tail =>
      element name attributes text children tail :: children.flatMap subtree

theorem mem_subtree_self (n : Node) : n ∈ n.subtree := by
  cases n <;> simp [subtree]

/-- The children of a node stand wherever the node stands. -/
theorem child_mem_subtree {m n c : Node} (hn : n ∈ m.subtree) (hc : c ∈ n.children) :
    c ∈ m.subtree := by
  induction m using subtree.induct with
  | case1 content tail =>
      rw [subtree, List.mem_singleton] at hn
      subst hn
      exact absurd hc List.not_mem_nil
  | case2 name attributes tail =>
      rw [subtree, List.mem_singleton] at hn
      subst hn
      exact absurd hc List.not_mem_nil
  | case3 name attributes text children tail ih =>
      rw [subtree, List.mem_cons, List.mem_flatMap] at hn ⊢
      rcases hn with rfl | ⟨d, hd, hn⟩
      · exact .inr ⟨c, hc, c.mem_subtree_self⟩
      · exact .inr ⟨d, hd, ih d hd hn⟩

end Node

def allNodes (doc : List Node) : List Node := doc.flatMap Node.subtree

theorem mem_allNodes_of_mem {n : Node} {doc : List Node} (h : n ∈ doc) : n ∈ allNodes doc :=
  List.mem_flatMap.mpr ⟨n, h, n.mem_subtree_self⟩

theorem child_mem_allNodes {n c : Node} {doc : List Node} (hn : n ∈ allNodes doc)
    (hc : c ∈ n.children) : c ∈ allNodes doc := by
  obtain ⟨m, hm, hn⟩ := List.mem_flatMap.mp hn
  exact List.mem_flatMap.mpr ⟨m, hm, Node.child_mem_subtree hn hc⟩

/-! ### The stack machine -/

structure Frame where
  name : Text
  attributes : List (Text × Text)
  text : Text
  /-- The nodes in front of the element, the last one first. -/
  before : List Node

/-- The open elements, the innermost one first, and the nodes that stand in the innermost one so
far, the last one first. -/
structure Growth where
  stack : List Frame
  nodes : List Node

namespace Growth

/-- One tag, with the text behind it. -/
def step? (g : Growth) : Tag × Text → Option Growth
  | (.declaration content, tail) => some ⟨g.stack, .declaration content tail :: g.nodes⟩
  | (.single name attributes, tail) => some ⟨g.stack, .single name attributes tail :: g.nodes⟩
  | (.opening name attributes, text) => some ⟨⟨name, attributes, text, g.nodes⟩ :: g.stack, []⟩
  | (.closing name, tail) =>
      match g.stack with
      | f :: stack =>
          if f.name = name then
            some ⟨stack, .element f.name f.attributes f.text g.nodes.reverse tail :: f.before⟩
          else none
      | [] => none

end Growth

/-- The nodes that tags describe, if every tag that closes an element matches the last one that is
still open, and none stays open. -/
def grow? (tags : List (Tag × Text)) : Option (List Node) :=
  match tags.foldlM Growth.step? ⟨[], []⟩ with
  | some ⟨[], nodes⟩ => some nodes.reverse
  | _ => none

/-- Nodes one after the other, where each of them is known to leave the stack as it was. -/
theorem foldlM_flatMap_tags {ns : List Node}
    (h : ∀ n ∈ ns, ∀ g, n.tags.foldlM Growth.step? g = some ⟨g.stack, n :: g.nodes⟩) (g : Growth) :
    (ns.flatMap Node.tags).foldlM Growth.step? g = some ⟨g.stack, ns.reverse ++ g.nodes⟩ := by
  induction ns generalizing g with
  | nil => rfl
  | cons n ns ih =>
      have hns := ih (fun m hm => h m (List.mem_cons_of_mem n hm)) ⟨g.stack, n :: g.nodes⟩
      rw [List.flatMap_cons, List.foldlM_append, h n List.mem_cons_self g, Option.bind_eq_bind,
        Option.bind_some, hns]
      simp

/-- Over the tags of a node the machine comes back to its stack, with one more node. -/
theorem Node.foldlM_tags (n : Node) (g : Growth) :
    n.tags.foldlM Growth.step? g = some ⟨g.stack, n :: g.nodes⟩ := by
  induction n using Node.tags.induct generalizing g with
  | case1 content tail => simp [Node.tags, Growth.step?]
  | case2 name attributes tail => simp [Node.tags, Growth.step?]
  | case3 name attributes text children tail ih =>
      let frame : Frame := ⟨name, attributes, text, g.nodes⟩
      have hopen : g.step? (.opening name attributes, text) = some ⟨frame :: g.stack, []⟩ := rfl
      have hchildren := foldlM_flatMap_tags ih ⟨frame :: g.stack, []⟩
      have hclose : Growth.step? ⟨frame :: g.stack, children.reverse ++ []⟩ (.closing name, tail)
          = some ⟨g.stack, .element name attributes text children tail :: g.nodes⟩ := by
        simp [Growth.step?, frame]
      rw [Node.tags, List.cons_append, List.foldlM_cons, hopen, Option.bind_eq_bind,
        Option.bind_some, List.foldlM_append, hchildren, Option.bind_eq_bind, Option.bind_some,
        List.foldlM_cons, hclose]
      rfl

/-- From the tags of a tree the machine grows that tree. -/
theorem grow?_flatMap_tags (ns : List Node) : grow? (ns.flatMap Node.tags) = some ns := by
  have hrun := foldlM_flatMap_tags (fun n (_ : n ∈ ns) => n.foldlM_tags) ⟨[], []⟩
  simp only [grow?, hrun, List.append_nil, List.reverse_reverse]

end MeetingMail
