import MeetingMail.Proofs.Toml.Row

/-!
Documents of plain lines, and the tables that they describe.

* A `Listing` has lines in front of all tables, and tables of lines. `Listing.Spelled` says which
  texts list it: one line of text for each of its lines, in order, and blank lines anywhere.
* `parse?_spelled`: a listing that sets nothing twice is read as the entries it lists, in order.
-/

namespace MeetingMail.Toml

/-! ### Listings -/

/-- Lines in front of all tables, and tables with the lines under their headers. -/
structure Listing where
  top : List (Text × Scalar) := []
  tables : List (Text × List (Text × Scalar)) := []
  deriving DecidableEq, Repr

namespace Listing

def lineRows (lines : List (Text × Scalar)) : List Row := lines.map fun l => .line l.1 l.2

/-- The lines of a listing in the order in which they are written. -/
def rows (d : Listing) : List Row :=
  lineRows d.top ++ d.tables.flatMap fun t => .header t.1 :: lineRows t.2

/-- The lines of a table; none if there is no such table. -/
def linesOf (d : Listing) (name : Text) : List (Text × Scalar) := (d.tables.lookup name).getD []

/-- Holds if no integer of a listing is out of range. -/
def Fits (d : Listing) : Prop :=
  (∀ line ∈ d.top, line.2.Fits) ∧ ∀ t ∈ d.tables, ∀ line ∈ t.2, line.2.Fits

instance (d : Listing) : Decidable d.Fits :=
  inferInstanceAs (Decidable
    ((∀ line ∈ d.top, line.2.Fits) ∧ ∀ t ∈ d.tables, ∀ line ∈ t.2, line.2.Fits))

/-- Holds if all names are bare, and nothing is set twice: no name in front of all tables, and no
key within a table. -/
structure WellFormed (d : Listing) : Prop where
  bare : ∀ row ∈ d.rows, IsBareKey row.name
  names_nodup : (d.top.map Prod.fst ++ d.tables.map Prod.fst).Nodup
  keys_nodup : ∀ t ∈ d.tables, (t.2.map Prod.fst).Nodup

instance (d : Listing) : Decidable d.WellFormed :=
  decidable_of_iff
    ((∀ row ∈ d.rows, IsBareKey row.name) ∧ (d.top.map Prod.fst ++ d.tables.map Prod.fst).Nodup ∧
      ∀ t ∈ d.tables, (t.2.map Prod.fst).Nodup)
    ⟨fun h => ⟨h.1, h.2.1, h.2.2⟩, fun h => ⟨h.bare, h.names_nodup, h.keys_nodup⟩⟩

/-- What a line sets. -/
def lineAssignment (line : Text × Scalar) : Assignment := ⟨[line.1], line.2.value⟩

def lineEntry (line : Text × Scalar) : Text × Value := (line.1, line.2.value)

def tableEntry (table : Text × List (Text × Scalar)) : Text × Value :=
  (table.1, .table .header (table.2.map lineEntry))

/-- The entries that a listing describes. -/
def entries (d : Listing) : Entries := d.top.map lineEntry ++ d.tables.map tableEntry

end Listing

/-- Lines of text that spell rows one by one. Blank lines may stand anywhere. -/
inductive SpelledRows : List Row → List Text → Prop where
  | nil : SpelledRows [] []
  | row {row : Row} {l : Text} {rows : List Row} {ls : List Text} (h : row.Spelled l)
      (hs : SpelledRows rows ls) : SpelledRows (row :: rows) (l :: ls)
  | blank {rows : List Row} {ls : List Text} (hs : SpelledRows rows ls) :
      SpelledRows rows ([] :: ls)

/-- A text that lists what a listing holds. -/
def Listing.Spelled (d : Listing) (t : Text) : Prop :=
  ∃ ls, SpelledRows d.rows ls ∧ t = Text.unlines ls

theorem exists_spelledRows (rows : List Row) : ∃ ls, SpelledRows rows ls := by
  induction rows with
  | nil => exact ⟨[], .nil⟩
  | cons row rows ih =>
      obtain ⟨l, hl⟩ := row.exists_spelled
      obtain ⟨ls, hls⟩ := ih
      exact ⟨l :: ls, .row hl hls⟩

theorem Listing.exists_spelled (d : Listing) : ∃ t, d.Spelled t := by
  obtain ⟨ls, hls⟩ := exists_spelledRows d.rows
  exact ⟨_, ls, hls, rfl⟩

/-- The lines of text that spell rows are read as the statements of these rows. -/
theorem SpelledRows.isLine {rows : List Row} {ls : List Text} (h : SpelledRows rows ls)
    (hbare : ∀ row ∈ rows, IsBareKey row.name) :
    ∃ ss, List.Forall₂ IsLine ls ss ∧ ss.flatten = rows.map Row.statement := by
  induction h with
  | nil => exact ⟨[], .nil, rfl⟩
  | @row row l rows ls h _ ih =>
      obtain ⟨hname, hbare⟩ := List.forall_mem_cons.mp hbare
      obtain ⟨ss, hlines, hflatten⟩ := ih hbare
      exact ⟨[row.statement] :: ss, .cons (h.isLine hname) hlines, congrArg _ hflatten⟩
  | blank _ ih =>
      obtain ⟨ss, hlines, hflatten⟩ := ih hbare
      exact ⟨[] :: ss, .cons isLine_nil hlines, hflatten⟩

/-! ### Entries -/

/-- Steps that each put an entry with a new key at the end put all entries there, in order. -/
theorem foldlM_append_entries {α : Type} {step : Entries → α → Option Entries}
    {entry : α → Text × Value} {as : List α}
    (hstep : ∀ a ∈ as, ∀ es : Entries, es.get? (entry a).1 = none →
      step es a = some (es ++ [entry a]))
    {es : Entries} (hnodup : ((es ++ as.map entry).map Prod.fst).Nodup) :
    as.foldlM step es = some (es ++ as.map entry) := by
  induction as generalizing es with
  | nil => simp
  | cons a as ih =>
      obtain ⟨ha, hstep⟩ := List.forall_mem_cons.mp hstep
      have hsplit : es ++ (a :: as).map entry = (es ++ [entry a]) ++ as.map entry := by simp
      rw [hsplit] at hnodup ⊢
      have hnew : (entry a).1 ∉ es.map Prod.fst := by
        rw [List.map_append, List.map_append] at hnodup
        intro hmem
        exact (List.nodup_append.mp (List.nodup_append.mp hnodup).1).2.2 _ hmem _
          List.mem_cons_self rfl
      rw [List.foldlM_cons, ha es (Entries.get?_eq_none_of_not_mem hnew)]
      exact ih hstep hnodup

/-! ### Values by name -/

section Lookup

variable {β γ : Type}

theorem lookup_map (f : β → γ) (l : List (Text × β)) (k : Text) :
    (l.map fun p => (p.1, f p.2)).lookup k = (l.lookup k).map f := by
  induction l with
  | nil => rfl
  | cons p l ih =>
      rw [List.map_cons, List.lookup_cons, List.lookup_cons, ih]
      cases k == p.1 <;> rfl

theorem lookup_eq_some_iff_mem {l : List (Text × β)} (h : (l.map Prod.fst).Nodup) {k : Text}
    {v : β} : l.lookup k = some v ↔ (k, v) ∈ l := by
  constructor
  · intro hlookup
    obtain ⟨l₁, l₂, rfl, -⟩ := List.lookup_eq_some_iff.mp hlookup
    exact List.mem_append_right l₁ List.mem_cons_self
  · intro hmem
    obtain ⟨l₁, l₂, rfl⟩ := List.append_of_mem hmem
    refine List.lookup_eq_some_iff.mpr ⟨l₁, l₂, rfl, fun p hp => ?_⟩
    rw [List.map_append, List.map_cons] at h
    have hne := (List.nodup_append.mp h).2.2 _ (List.mem_map_of_mem hp) _ List.mem_cons_self
    exact bne_iff_ne.mpr (Ne.symm hne)

end Lookup

theorem Listing.get?_lineEntries (lines : List (Text × Scalar)) (k : Text) :
    Entries.get? (lines.map lineEntry) k = (lines.lookup k).map Scalar.value :=
  lookup_map Scalar.value lines k

/-- What a listing says under the name of a table, if no line in front of all tables has it. -/
theorem Listing.get?_entries {d : Listing} {name : Text} (h : ∀ line ∈ d.top, line.1 ≠ name) :
    d.entries.get? name
      = (d.tables.lookup name).map fun lines => .table .header (lines.map lineEntry) := by
  have htop : (d.top.map lineEntry).lookup name = none := by
    refine List.lookup_eq_none_iff.mpr fun e he => ?_
    obtain ⟨line, hline, rfl⟩ := List.mem_map.mp he
    exact bne_iff_ne.mpr (Ne.symm (h line hline))
  rw [Entries.get?, entries, List.lookup_append, htop, Option.none_or]
  exact lookup_map (fun lines => Value.table .header (lines.map lineEntry)) d.tables name

theorem Listing.linesOf_eq_nil_or_mem (d : Listing) (name : Text) :
    d.linesOf name = [] ∨ (name, d.linesOf name) ∈ d.tables := by
  cases hlookup : d.tables.lookup name with
  | none => exact .inl (by rw [linesOf, hlookup, Option.getD_none])
  | some lines =>
      obtain ⟨l₁, l₂, htables, -⟩ := List.lookup_eq_some_iff.mp hlookup
      right
      rw [linesOf, hlookup, htables]
      exact List.mem_append_right l₁ List.mem_cons_self

theorem Listing.WellFormed.linesOf_eq {d : Listing} (hd : d.WellFormed)
    {t : Text × List (Text × Scalar)} (ht : t ∈ d.tables) : d.linesOf t.1 = t.2 := by
  have hnodup := (List.nodup_append.mp hd.names_nodup).2.1
  rw [linesOf, (lookup_eq_some_iff_mem hnodup).mpr ht, Option.getD_some]

theorem Listing.WellFormed.linesOf_nodup {d : Listing} (hd : d.WellFormed) (name : Text) :
    ((d.linesOf name).map Prod.fst).Nodup := by
  rcases d.linesOf_eq_nil_or_mem name with hnil | hmem
  · rw [hnil]
    exact List.nodup_nil
  · exact hd.keys_nodup _ hmem

/-! ### Numbers in range -/

/-- Lines may be passed over if none of them holds an integer out of range. -/
theorem Listing.entriesReadable_lines (lines : List (Text × Scalar)) :
    entriesReadable (lines.map lineEntry) = decide (∀ line ∈ lines, line.2.Fits) := by
  induction lines with
  | nil => rfl
  | cons line lines ih =>
      rw [List.map_cons, lineEntry, entriesReadable, Scalar.isReadable_value, ih, ← Bool.decide_and]
      simp only [List.forall_mem_cons]

theorem Listing.isReadable_lineEntry {line : Text × Scalar} :
    (lineEntry line).2.isReadable = true ↔ line.2.Fits := by
  rw [lineEntry, Scalar.isReadable_value, decide_eq_true_iff]

theorem Listing.isReadable_tableEntry {t : Text × List (Text × Scalar)} :
    (tableEntry t).2.isReadable = true ↔ ∀ line ∈ t.2, line.2.Fits := by
  rw [tableEntry, Value.isReadable, entriesReadable_lines, decide_eq_true_iff]

theorem Listing.Fits.linesOf {d : Listing} (h : d.Fits) (name : Text) :
    ∀ line ∈ d.linesOf name, line.2.Fits := by
  rcases d.linesOf_eq_nil_or_mem name with hnil | hmem
  · rw [hnil]
    exact nofun
  · exact h.2 _ hmem

/-! ### Listings are read back -/

open Listing

theorem assignAll?_lines {lines : List (Text × Scalar)} (h : (lines.map Prod.fst).Nodup) :
    Entries.assignAll? (lines.map lineAssignment) [] = some (lines.map lineEntry) := by
  rw [Entries.assignAll?, List.foldlM_map]
  refine foldlM_append_entries (fun line _ es hnew => ?_) ?_
  · have hput : es.put line.1 line.2.value = es ++ [lineEntry line] :=
      Entries.put_of_get?_eq_none hnew
    change Entries.assign? line.2.value [line.1] es = _
    rw [Entries.assign?, show es.get? line.1 = none from hnew]
    exact congrArg some hput
  · simpa [lineEntry, Function.comp_def] using h

theorem openSection?_table {table : Text × List (Text × Scalar)}
    (h : (table.2.map Prod.fst).Nodup) {es : Entries} (hnew : es.get? table.1 = none) :
    es.openSection? (.table [table.1], table.2.map lineAssignment)
      = some (es ++ [tableEntry table]) := by
  rw [Entries.openSection?, Entries.openTable?, Entries.changeAt?, hnew, assignAll?_lines h]
  exact congrArg some (Entries.put_of_get?_eq_none hnew)

theorem map_statement_lineRows (lines : List (Text × Scalar)) :
    (lineRows lines).map Row.statement = (lines.map lineAssignment).map .assignment := by
  rw [lineRows, List.map_map, List.map_map]
  rfl

theorem sections_tables (tables : List (Text × List (Text × Scalar))) :
    sections ((tables.flatMap fun t => .header t.1 :: lineRows t.2).map Row.statement)
      = ([], tables.map fun t => (.table [t.1], t.2.map lineAssignment)) := by
  induction tables with
  | nil => rfl
  | cons t tables ih =>
      rw [List.flatMap_cons, List.map_append, List.map_cons, List.cons_append, Row.statement,
        sections, map_statement_lineRows, sections_assignments, ih]
      simp

theorem sections_rows (d : Listing) :
    sections (d.rows.map Row.statement)
      = (d.top.map lineAssignment,
          d.tables.map fun t => (.table [t.1], t.2.map lineAssignment)) := by
  rw [rows, List.map_append, map_statement_lineRows, sections_assignments, sections_tables,
    List.append_nil]

/-- The text of a listing is read as the entries that it lists, in their order. -/
theorem parse?_spelled {d : Listing} (hd : d.WellFormed) {t : Text} (ht : d.Spelled t) :
    parse? t = some d.entries := by
  obtain ⟨ls, hls, rfl⟩ := ht
  obtain ⟨ss, hlines, hflatten⟩ := hls.isLine hd.bare
  have htop : (d.top.map Prod.fst).Nodup := (List.nodup_append.mp hd.names_nodup).1
  have htables : (d.tables.map fun t => (Header.table [t.1], t.2.map lineAssignment)).foldlM
      Entries.openSection? (d.top.map lineEntry) = some d.entries := by
    rw [List.foldlM_map]
    refine foldlM_append_entries
      (fun table ht es hnew => openSection?_table (hd.keys_nodup table ht) hnew) ?_
    simpa [lineEntry, tableEntry, Function.comp_def] using hd.names_nodup
  rw [parse?_unlines hlines, hflatten, Entries.ofStatements?, sections_rows]
  dsimp only
  rw [assignAll?_lines htop, Option.bind_some, htables]

/-- One more table at the end of a document that has no entry under its name. -/
theorem parse?_append_table {ls : List Text} {ss : List (List Statement)}
    (hls : List.Forall₂ IsLine ls ss) {es : Entries} (hes : parse? (Text.unlines ls) = some es)
    {table : Text × List (Text × Scalar)} (hnew : es.get? table.1 = none)
    (hbare : ∀ row ∈ Row.header table.1 :: lineRows table.2, IsBareKey row.name)
    (hkeys : (table.2.map Prod.fst).Nodup) {ls' : List Text}
    (h : SpelledRows (.header table.1 :: lineRows table.2) ls') :
    parse? (Text.unlines (ls ++ ls')) = some (es ++ [tableEntry table]) := by
  obtain ⟨ss', hls', hflatten⟩ := h.isLine hbare
  rw [List.map_cons, Row.statement, map_statement_lineRows] at hflatten
  have hsections := sections_assignments (table.2.map lineAssignment) []
  rw [List.append_nil, sections, List.append_nil] at hsections
  rw [parse?_unlines hls] at hes
  rw [parse?_unlines (List.rel_append hls hls'), List.flatten_append, hflatten,
    ofStatements?_header, hes, Option.bind_some, hsections, openSection?_table hkeys hnew,
    Option.bind_some]
  rfl

end MeetingMail.Toml
