import MeetingMail.Proofs.Email.Tree

/-!
The lists of an email.

* `Node.ListRules` says of one node which lists and items it may have as children, and what it
  holds where it is a list itself.
* `ListsInCell` says this of all nodes of a document, which has one content cell.
* `grow?_renderSummary`: the page of every summary is a tree whose lists are as `ListsInCell` says.
-/

namespace MeetingMail

/-! ### Lists in a tree -/

/-- Whether a node is a table cell with the style of the content cell. -/
def Node.isContentCell (n : Node) : Bool :=
  n.name == "td".toList && n.attributes == [("style".toList, "padding:18px 20px".toList)]

/-- Only lists have items as children, and only the given cell has lists as children. A list has
at least one child, holds nothing but items and line feeds, and has no other block inside it. -/
structure Node.ListRules (n cell : Node) : Prop where
  item_parent : ∀ c ∈ n.children, c.name = "li".toList → n.name = "ul".toList
  list_parent : ∀ c ∈ n.children, c.name = "ul".toList → n = cell
  nonempty : n.name = "ul".toList → n.children ≠ []
  items : n.name = "ul".toList → ∀ c ∈ n.children, c.name = "li".toList
  line_feeds : n.name = "ul".toList → ∀ t ∈ n.text :: n.children.map tail, ∀ c ∈ t, c = '\n'
  inside : n.name = "ul".toList → ∀ m ∈ allNodes n.children,
    m.name ∉ ["h2".toList, "h3".toList, "p".toList, "div".toList]

/-- A document with one content cell, whose lists and items all stand where they should. -/
structure ListsInCell (cell : Node) (doc : List Node) : Prop where
  cell_unique : (allNodes doc).filter Node.isContentCell = [cell]
  roots : ∀ n ∈ doc, n.name ≠ "li".toList ∧ n.name ≠ "ul".toList
  rules : ∀ n ∈ allNodes doc, n.ListRules cell

/-- A node of the skeleton: no item, no list and not the content cell. -/
structure Node.Plain (n : Node) : Prop where
  not_item : n.name ≠ "li".toList
  not_list : n.name ≠ "ul".toList
  not_cell : n.isContentCell = false

/-- A node that is no list and has neither lists nor items as children. -/
theorem Node.ListRules.of_ne {cell n : Node} (hn : n.name ≠ "ul".toList)
    (hchildren : ∀ c ∈ n.children, c.name ≠ "li".toList ∧ c.name ≠ "ul".toList) :
    n.ListRules cell where
  item_parent c hc hname := absurd hname (hchildren c hc).1
  list_parent c hc hname := absurd hname (hchildren c hc).2
  nonempty hname := absurd hname hn
  items hname := absurd hname hn
  line_feeds hname := absurd hname hn
  inside hname := absurd hname hn

theorem Node.ListRules.of_plain {cell n : Node} {doc : List Node}
    (hdoc : ∀ m ∈ allNodes doc, m.Plain) (hn : n ∈ allNodes doc) : n.ListRules cell := by
  refine .of_ne (hdoc n hn).not_list fun c hc => ?_
  have hplain := hdoc c (child_mem_allNodes hn hc)
  exact ⟨hplain.not_item, hplain.not_list⟩

theorem filter_isContentCell_of_plain {doc : List Node} (hdoc : ∀ m ∈ allNodes doc, m.Plain) :
    (allNodes doc).filter Node.isContentCell = [] := by
  rw [List.filter_eq_nil_iff]
  intro n hn
  rw [(hdoc n hn).not_cell]
  exact Bool.false_ne_true

/-- One step from the cell to the root: an element around a document, with plain siblings. -/
theorem ListsInCell.wrap {cell : Node} {doc before behind : List Node} (h : ListsInCell cell doc)
    (hbefore : ∀ n ∈ allNodes before, n.Plain) (hbehind : ∀ n ∈ allNodes behind, n.Plain)
    {name text tail : Text} {attributes : List (Text × Text)}
    (hplain : (Node.element name attributes text doc tail).Plain) :
    ListsInCell cell (before ++ .element name attributes text doc tail :: behind) := by
  have hnodes : allNodes (before ++ .element name attributes text doc tail :: behind)
      = allNodes before ++ .element name attributes text doc tail :: allNodes doc
        ++ allNodes behind := by
    simp [allNodes, Node.subtree]
  refine ⟨?_, ?_, ?_⟩
  · rw [hnodes, List.filter_append, List.filter_append, filter_isContentCell_of_plain hbefore,
      filter_isContentCell_of_plain hbehind, List.nil_append, List.append_nil,
      List.filter_cons_of_neg (by rw [hplain.not_cell]; exact Bool.false_ne_true), h.cell_unique]
  · intro n hn
    rw [List.mem_append, List.mem_cons] at hn
    rcases hn with hn | rfl | hn
    · have hn := hbefore n (mem_allNodes_of_mem hn)
      exact ⟨hn.not_item, hn.not_list⟩
    · exact ⟨hplain.not_item, hplain.not_list⟩
    · have hn := hbehind n (mem_allNodes_of_mem hn)
      exact ⟨hn.not_item, hn.not_list⟩
  · intro n hn
    rw [hnodes, List.mem_append, List.mem_append, List.mem_cons] at hn
    rcases hn with (hn | rfl | hn) | hn
    · exact .of_plain hbefore hn
    · exact .of_ne hplain.not_list h.roots
    · exact h.rules n hn
    · exact .of_plain hbehind hn

/-! ### Sections in the cell -/

theorem Node.isContentCell_of_name_ne {n : Node} (h : n.name ≠ "td".toList) :
    n.isContentCell = false := by
  rw [isContentCell, beq_eq_false_iff_ne.mpr h, Bool.false_and]

@[simp] theorem subtree_styledNode (e : Element) (style : Text) (t : Escaped) (tail : Text) :
    (styledNode e style t tail).subtree = [styledNode e style t tail] := by
  simp [styledNode, Node.ofElement, Node.subtree]

theorem allNodes_items (style : Text) (items : List Escaped) :
    allNodes (items.map (styledNode .li style · ['\n']))
      = items.map (styledNode .li style · ['\n']) := by
  rw [allNodes, List.flatMap_map, List.map_eq_flatMap]
  simp only [subtree_styledNode]

theorem rules_of_children_nil {n cell : Node} (hn : n.name ≠ "ul".toList) (h : n.children = []) :
    n.ListRules cell := by
  refine .of_ne hn fun c hc => ?_
  rw [h] at hc
  exact absurd hc List.not_mem_nil

/-- The node of a list follows the rules, wherever it stands. -/
theorem rules_list (settings : Settings) (first : Escaped) (others : List Escaped)
    (tail : Text) (cell : Node) :
    ((Section.list first others).node settings tail).ListRules cell := by
  have hitem : ∀ c ∈ (first :: others).map (styledNode .li settings.styles.li · ['\n']),
      c.name = "li".toList ∧ c.tail = ['\n'] := by
    intro c hc
    obtain ⟨t, -, rfl⟩ := List.mem_map.mp hc
    exact ⟨rfl, rfl⟩
  refine
    { item_parent := fun c _ _ => rfl
      list_parent := ?_
      nonempty := fun _ => List.cons_ne_nil _ _
      items := fun _ c hc => (hitem c hc).1
      line_feeds := ?_
      inside := ?_ }
  · intro c hc hname
    rw [(hitem c hc).1] at hname
    exact absurd hname (Element.name_ne (e := .li) (f := .ul) (by simp))
  · intro _ t ht
    rw [List.mem_cons, List.mem_map] at ht
    have hfeed : t = ['\n'] := by
      rcases ht with rfl | ⟨c, hc, rfl⟩
      · rfl
      · exact (hitem c hc).2
    rw [hfeed]
    exact fun _ => List.mem_singleton.mp
  · intro _ m hm
    have hli : m.name = "li".toList := (hitem m (allNodes_items _ _ ▸ hm)).1
    rw [hli]
    decide

theorem Section.rules_node (settings : Settings) (tail : Text) (c : Section) (cell : Node) :
    (c.node settings tail).ListRules cell := by
  cases c with
  | heading level t =>
      refine rules_of_children_nil (Element.name_ne (f := .ul) ?_) rfl
      cases level <;> decide
  | paragraph t => exact rules_of_children_nil (Element.name_ne (e := .p) (f := .ul) (by simp)) rfl
  | spacer => exact rules_of_children_nil (Element.name_ne (e := .div) (f := .ul) (by simp)) rfl
  | list first others => exact rules_list settings first others tail cell

def Section.element : Section → Element
  | .heading level _ => level.element
  | .paragraph _ => .p
  | .spacer => .div
  | .list _ _ => .ul

theorem Section.name_node (settings : Settings) (tail : Text) (c : Section) :
    (c.node settings tail).name = c.element.name := by
  cases c <;> rfl

theorem Section.element_ne (c : Section) : c.element ≠ .li ∧ c.element ≠ .td := by
  rcases c with ⟨_ | _, _⟩ | _ | _ | _ <;> simp [element, Level.element]

/-- Inside a section there is nothing but the items of a list. -/
theorem Section.eq_or_item {settings : Settings} {tail : Text} {c : Section} {n : Node}
    (hn : n ∈ (c.node settings tail).subtree) :
    n = c.node settings tail ∨ ∃ t, n = styledNode .li settings.styles.li t ['\n'] := by
  cases c with
  | heading level t =>
      rw [node, subtree_styledNode] at hn
      exact .inl (List.mem_singleton.mp hn)
  | paragraph t =>
      rw [node, subtree_styledNode] at hn
      exact .inl (List.mem_singleton.mp hn)
  | spacer =>
      rw [node, Node.ofElement, Node.subtree] at hn
      exact .inl (List.mem_singleton.mp hn)
  | list first others =>
      rw [node, Node.ofElement, Node.subtree, List.mem_cons] at hn
      rcases hn with rfl | hn
      · exact .inl rfl
      · rw [← allNodes, allNodes_items] at hn
        obtain ⟨t, -, rfl⟩ := List.mem_map.mp hn
        exact .inr ⟨t, rfl⟩

theorem exists_of_mem_sectionNodes {settings : Settings} {tail : Text} {ss : List Section}
    {n : Node} (hn : n ∈ sectionNodes settings tail ss) :
    ∃ (c : Section) (tail : Text), n = c.node settings tail := by
  fun_induction sectionNodes settings tail ss with
  | case1 => exact absurd hn List.not_mem_nil
  | case2 c => exact ⟨c, tail, List.mem_singleton.mp hn⟩
  | case3 c cs _ ih =>
      rcases List.mem_cons.mp hn with rfl | hn
      · exact ⟨c, ['\n'], rfl⟩
      · exact ih hn

theorem rules_of_mem_sections {settings : Settings} {tail : Text} {ss : List Section} {n : Node}
    (hn : n ∈ allNodes (sectionNodes settings tail ss)) (cell : Node) :
    n.ListRules cell ∧ n.isContentCell = false := by
  obtain ⟨m, hm, hn⟩ := List.mem_flatMap.mp hn
  obtain ⟨c, tail, rfl⟩ := exists_of_mem_sectionNodes hm
  rcases Section.eq_or_item hn with rfl | ⟨t, rfl⟩
  · refine ⟨c.rules_node settings tail cell, Node.isContentCell_of_name_ne ?_⟩
    rw [c.name_node]
    exact Element.name_ne c.element_ne.2
  · exact ⟨rules_of_children_nil (Element.name_ne (e := .li) (f := .ul) (by simp)) rfl,
      Node.isContentCell_of_name_ne (Element.name_ne (e := .li) (f := .td) (by simp))⟩

/-- The content cell alone, around its sections. -/
theorem listsInCell_contentCell (settings : Settings) (tail : Text) (ss : List Section) :
    ListsInCell (contentCell (sectionNodes settings tail ss))
      [contentCell (sectionNodes settings tail ss)] := by
  have hnodes : allNodes [contentCell (sectionNodes settings tail ss)]
      = contentCell (sectionNodes settings tail ss)
        :: allNodes (sectionNodes settings tail ss) := by
    simp [allNodes, contentCell, Node.ofElement, Node.subtree]
  have hname : (contentCell (sectionNodes settings tail ss)).name ≠ "ul".toList :=
    Element.name_ne (e := .td) (f := .ul) (by simp)
  refine ⟨?_, ?_, ?_⟩
  · rw [hnodes, List.filter_cons_of_pos rfl, List.cons.injEq, List.filter_eq_nil_iff]
    refine ⟨rfl, fun n hn => ?_⟩
    rw [(rules_of_mem_sections hn n).2]
    exact Bool.false_ne_true
  · intro n hn
    rw [List.mem_singleton.mp hn]
    exact ⟨Element.name_ne (e := .td) (f := .li) (by simp), hname⟩
  · intro n hn
    rw [hnodes, List.mem_cons] at hn
    rcases hn with rfl | hn
    · refine ⟨fun c hc hli => ?_, fun c _ _ => rfl, ?_, ?_, ?_, ?_⟩
      · obtain ⟨d, tail, rfl⟩ := exists_of_mem_sectionNodes hc
        rw [d.name_node] at hli
        exact absurd hli (Element.name_ne d.element_ne.1)
      all_goals exact fun hul => absurd hul hname
    · exact (rules_of_mem_sections hn _).1

/-! ### The page around the cell -/

/-- An element of the skeleton that is no table cell. -/
theorem Node.Plain.of_ne {e : Element} {as : List Attribute} {text tail : Text}
    {children : List Node} (h : e ≠ .li ∧ e ≠ .ul ∧ e ≠ .td) :
    (Node.ofElement e as text children tail).Plain where
  not_item := Element.name_ne h.1
  not_list := Element.name_ne h.2.1
  not_cell := Node.isContentCell_of_name_ne (Element.name_ne h.2.2)

/-- A table cell with other attributes than the content cell. -/
theorem Node.Plain.of_attributes {as : List Attribute} {text tail : Text} {children : List Node}
    (h : (as.map Attribute.spelled == [("style".toList, "padding:18px 20px".toList)]) = false) :
    (Node.ofElement .td as text children tail).Plain where
  not_item := Element.name_ne (e := .td) (f := .li) (by simp)
  not_list := Element.name_ne (e := .td) (f := .ul) (by simp)
  not_cell := by
    change (_ && (as.map Attribute.spelled == _)) = false
    rw [h, Bool.and_false]

theorem plain_nil : ∀ n ∈ allNodes [], n.Plain := by
  intro n hn
  exact absurd hn List.not_mem_nil

theorem plain_headNode (title : Text) : ∀ n ∈ allNodes [headNode title], n.Plain := by
  have hmeta (as : List (Text × Text)) (tail : Text) :
      (Node.single Element.metadata.name as tail).Plain :=
    ⟨Element.name_ne (e := .metadata) (f := .li) (by simp),
      Element.name_ne (e := .metadata) (f := .ul) (by simp),
      Node.isContentCell_of_name_ne (Element.name_ne (e := .metadata) (f := .td) (by simp))⟩
  simp only [allNodes, headNode, Node.ofElement, Node.subtree, List.flatMap_cons, List.flatMap_nil,
    List.append_nil, List.cons_append, List.nil_append, List.mem_cons, List.not_mem_nil, or_false]
  rintro n (rfl | rfl | rfl | rfl)
  · exact .of_ne (e := .head) (by simp)
  · exact hmeta _ _
  · exact hmeta _ _
  · exact .of_ne (e := .title) (by simp)

theorem plain_bannerRow (title : Text) : ∀ n ∈ allNodes [bannerRow title], n.Plain := by
  simp only [allNodes, bannerRow, Node.ofElement, Node.subtree, List.flatMap_cons, List.flatMap_nil,
    List.append_nil, List.mem_cons, List.not_mem_nil, or_false]
  rintro n (rfl | rfl | rfl)
  · exact .of_ne (e := .tr) (by simp)
  · exact .of_attributes (by decide)
  · exact .of_ne (e := .h1) (by simp)

theorem plain_footerRow (footer : Text) : ∀ n ∈ allNodes [footerRow footer], n.Plain := by
  simp only [allNodes, footerRow, Node.ofElement, Node.subtree, List.flatMap_cons, List.flatMap_nil,
    List.append_nil, List.mem_cons, List.not_mem_nil, or_false]
  rintro n (rfl | rfl)
  · exact .of_ne (e := .tr) (by simp)
  · exact .of_attributes (by decide)

/-- From the cell to the root the page goes on with elements of the skeleton. -/
theorem listsInCell_page (settings : Settings) (title tail : Text) (ss : List Section) :
    ListsInCell (contentCell (sectionNodes settings tail ss))
      (page settings title (sectionNodes settings tail ss)) := by
  let sections := sectionNodes settings tail ss
  have hrows : ListsInCell (contentCell sections)
      [bannerRow title, contentRow sections, footerRow settings.document.footer] :=
    (listsInCell_contentCell settings tail ss).wrap (plain_bannerRow title)
      (plain_footerRow settings.document.footer) (.of_ne (e := .tr) (by simp))
  have hcolumn : ListsInCell (contentCell sections) [columnTable settings title sections] :=
    hrows.wrap plain_nil plain_nil (.of_ne (e := .table) (by simp))
  have hcentre : ListsInCell (contentCell sections) [centreTable settings title sections] :=
    ((hcolumn.wrap plain_nil plain_nil (.of_attributes (by decide))).wrap plain_nil plain_nil
      (.of_ne (e := .tr) (by simp))).wrap plain_nil plain_nil
      (.of_ne (e := .table) (by simp))
  have hbody : ListsInCell (contentCell sections)
      [headNode title, bodyNode settings title sections] :=
    hcentre.wrap (plain_headNode title) plain_nil (.of_ne (e := .body) (by simp))
  have hdeclaration : ∀ n ∈ allNodes [.declaration "DOCTYPE html".toList (margin 0)], n.Plain := by
    intro n hn
    rw [allNodes, List.flatMap_singleton, Node.subtree, List.mem_singleton] at hn
    rw [hn]
    exact ⟨by decide, by decide, by decide⟩
  exact hbody.wrap hdeclaration plain_nil (.of_ne (e := .html) (by simp))

/-! ### The page of a summary -/

/-- A summary has at least one section, even where it is empty. -/
theorem exists_sections_ofSummary (content : Text) :
    ∃ (c : Section) (cs : List Section),
      Block.ofSummary content = (c :: cs).flatMap Section.blocks := by
  obtain ⟨ss, hss⟩ := ListState.completes_blocks .outside (Line.parse content)
  cases ss with
  | nil =>
      obtain ⟨l, ls, hlines⟩ := List.exists_cons_of_ne_nil (Line.parse_ne_nil content)
      rw [hlines, ListState.blocks_cons] at hss
      exact absurd hss (List.append_ne_nil_of_right_ne_nil _ (List.cons_ne_nil _ _))
  | cons c cs => exact ⟨c, cs, hss⟩

/-- The tags of the page of a summary are nested properly: the stack machine takes every one of
them and ends with an empty stack. In the tree it grows, lists stand in the content cell alone. -/
theorem grow?_renderSummary (settings : Settings) (title : Option Text) (content : Text) :
    ∃ (tags : List (Tag × Text)) (doc : List Node) (cell : Node),
      scan? (renderSummary settings title content) = some ⟨[], tags⟩ ∧
      grow? tags = some doc ∧
      ListsInCell cell doc := by
  obtain ⟨c, cs, hblocks⟩ := exists_sections_ofSummary content
  let sections := sectionNodes settings (margin 14) (c :: cs)
  let doc := page settings (settings.titleFor title) sections
  refine ⟨doc.flatMap Node.tags, doc, contentCell sections, ?_, grow?_flatMap_tags doc,
    listsInCell_page settings (settings.titleFor title) (margin 14) (c :: cs)⟩
  rw [renderSummary_eq, Email.ofBlocks, hblocks, Email.render, scan?_renderTokens, ofTokens_tokens]

end MeetingMail
