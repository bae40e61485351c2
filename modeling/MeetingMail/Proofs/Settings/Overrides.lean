import MeetingMail.Proofs.Settings.Fields
import MeetingMail.Proofs.Toml.Listing

/-!
Settings files that choose some of the settings.

* `Overrides` is a choice of settings, and `Overrides.apply` replaces the chosen ones.
* `Overrides.IsListedBy` says of a listing that it sets these and no others. It may set anything
  else under other names.
* `Settings.ofToml?_of_isListedBy`: a text that lists a choice of settings is read as the settings
  of the built-in file with the chosen ones replaced.
-/

namespace MeetingMail

open Toml (Entries Listing Scalar Value)

/-! ### Choices -/

/-- A choice of document settings. What is `none` is not chosen. -/
structure DocumentOverrides where
  title : Option Text := none
  footer : Option Text := none
  width : Option UInt32 := none
  spacerHeight : Option UInt32 := none
  deriving DecidableEq, Repr

/-- A choice of styles. -/
structure StyleOverrides where
  h2 : Option Text := none
  h3 : Option Text := none
  p : Option Text := none
  ul : Option Text := none
  li : Option Text := none
  deriving DecidableEq, Repr

/-- A choice of settings. -/
structure Overrides where
  document : DocumentOverrides := {}
  styles : StyleOverrides := {}
  deriving DecidableEq, Repr

def DocumentOverrides.apply (o : DocumentOverrides) (d : DocumentSettings) : DocumentSettings where
  title := o.title.getD d.title
  footer := o.footer.getD d.footer
  width := o.width.getD d.width
  spacerHeight := o.spacerHeight.getD d.spacerHeight

def StyleOverrides.apply (o : StyleOverrides) (s : Styles) : Styles where
  h2 := o.h2.getD s.h2
  h3 := o.h3.getD s.h3
  p := o.p.getD s.p
  ul := o.ul.getD s.ul
  li := o.li.getD s.li

/-- The settings with the chosen ones replaced. -/
def Overrides.apply (o : Overrides) (s : Settings) : Settings where
  document := o.document.apply s.document
  styles := o.styles.apply s.styles

/-! ### Choices in a listing -/

/-- The values that the document section gives to its settings, and `none` where it is silent. -/
def DocumentOverrides.choices (o : DocumentOverrides) : List (Text × Option Scalar) :=
  [("title".toList, o.title.map .string), ("footer".toList, o.footer.map .string),
    ("width".toList, o.width.map fun n => .integer n.toNat),
    ("spacer_height".toList, o.spacerHeight.map fun n => .integer n.toNat)]

/-- The values that the section of styles gives to them, and `none` where it is silent. -/
def StyleOverrides.choices (o : StyleOverrides) : List (Text × Option Scalar) :=
  [("h2".toList, o.h2.map .string), ("h3".toList, o.h3.map .string), ("p".toList, o.p.map .string),
    ("ul".toList, o.ul.map .string), ("li".toList, o.li.map .string)]

/-- Lines that agree with some choices: they set what is chosen, and do not mention what is not. -/
def ListChoices (lines : List (Text × Scalar)) (choices : List (Text × Option Scalar)) : Prop :=
  ∀ c ∈ choices, lines.lookup c.1 = c.2

instance (lines : List (Text × Scalar)) (choices : List (Text × Option Scalar)) :
    Decidable (ListChoices lines choices) :=
  inferInstanceAs (Decidable (∀ c ∈ choices, lines.lookup c.1 = c.2))

/-- Holds if a listing sets the chosen settings and no others. It may hold further lines and
tables, as long as no name is given twice. -/
structure Overrides.IsListedBy (o : Overrides) (d : Listing) : Prop where
  wellFormed : d.WellFormed
  top : ∀ line ∈ d.top, line.1 ≠ "document".toList ∧ line.1 ≠ "styles".toList
  document : ListChoices (d.linesOf "document".toList) o.document.choices
  styles : ListChoices (d.linesOf "styles".toList) o.styles.choices

instance (o : Overrides) (d : Listing) : Decidable (o.IsListedBy d) :=
  decidable_of_iff
    (d.WellFormed ∧ (∀ line ∈ d.top, line.1 ≠ "document".toList ∧ line.1 ≠ "styles".toList) ∧
      ListChoices (d.linesOf "document".toList) o.document.choices ∧
      ListChoices (d.linesOf "styles".toList) o.styles.choices)
    ⟨fun h => ⟨h.1, h.2.1, h.2.2.1, h.2.2.2⟩,
      fun h => ⟨h.wellFormed, h.top, h.document, h.styles⟩⟩

/-! ### Sections -/

open Toml.Listing (lineEntry tableEntry get?_lineEntries isReadable_lineEntry
  isReadable_tableEntry)

theorem setIf?_text {σ : Type} (name : Text) (put : Text → σ → σ) (t : Option Text) (r : σ) :
    Field.setIf? ⟨name, fun v r => (textOf? v).map fun t => put t r⟩
      ((t.map Scalar.string).map Scalar.value) r = some ((t.map (put · r)).getD r) := by
  cases t <;> rfl

theorem pixelsOf?_value (n : UInt32) : pixelsOf? (Scalar.integer n.toNat).value = some n := by
  have hsize : 0 ≤ (n.toNat : Int) ∧ (n.toNat : Int) ≤ 4294967295 := by
    have hlt : n.toNat < 2 ^ 32 := n.toNat_lt
    omega
  rw [Scalar.value, pixelsOf?_integer (Toml.value?_decimalLiteral n.toNat), if_pos hsize,
    Int.toNat_natCast, UInt32.ofNat_toNat]

theorem setIf?_pixels {σ : Type} (name : Text) (put : UInt32 → σ → σ) (n : Option UInt32)
    (r : σ) :
    Field.setIf? ⟨name, fun v r => (pixelsOf? v).map fun n => put n r⟩
      ((n.map fun n => Scalar.integer n.toNat).map Scalar.value) r
      = some ((n.map (put · r)).getD r) := by
  cases n with
  | none => rfl
  | some n =>
      change (pixelsOf? _).map _ = _
      rw [pixelsOf?_value]
      rfl

theorem DocumentOverrides.setFields?_lines {o : DocumentOverrides} {lines : List (Text × Scalar)}
    (h : ListChoices lines o.choices) (d : DocumentSettings) :
    setFields? DocumentSettings.fields (lines.map lineEntry) d = some (o.apply d) := by
  simp only [ListChoices, choices, List.forall_mem_cons, List.not_mem_nil, false_implies,
    implies_true, and_true] at h
  obtain ⟨htitle, hfooter, hwidth, hspacer⟩ := h
  simp only [DocumentSettings.fields, setFields?_cons, get?_lineEntries, htitle, hfooter, hwidth,
    hspacer, setIf?_text, setIf?_pixels, Option.bind_some]
  rcases o with ⟨_ | _, _ | _, _ | _, _ | _⟩ <;> rfl

theorem StyleOverrides.setFields?_lines {o : StyleOverrides} {lines : List (Text × Scalar)}
    (h : ListChoices lines o.choices) (s : Styles) :
    setFields? Styles.fields (lines.map lineEntry) s = some (o.apply s) := by
  simp only [ListChoices, choices, List.forall_mem_cons, List.not_mem_nil, false_implies,
    implies_true, and_true] at h
  obtain ⟨hh2, hh3, hp, hul, hli⟩ := h
  simp only [Styles.fields, setFields?_cons, get?_lineEntries, hh2, hh3, hp, hul, hli, setIf?_text,
    Option.bind_some]
  rcases o with ⟨_ | _, _ | _, _ | _, _ | _, _ | _⟩ <;> rfl

/-! ### Sections with further lines -/

section Lines

variable {σ : Type} {fields : List (Field σ)} {choices : List (Text × Option Scalar)}
  {lines : List (Text × Scalar)}

/-- Where the chosen values are in range, only further lines can be out of it. -/
theorem othersReadable_lines (hnames : fields.map Field.name = choices.map Prod.fst)
    (hfit : ∀ c ∈ choices, ∀ v ∈ c.2, v.Fits) (hlines : (lines.map Prod.fst).Nodup)
    (h : ListChoices lines choices) :
    OthersReadable fields (lines.map lineEntry) ↔ ∀ line ∈ lines, line.2.Fits := by
  constructor
  · intro hreadable line hline
    by_cases hname : line.1 ∈ choices.map Prod.fst
    · obtain ⟨c, hc, hkey⟩ := List.mem_map.mp hname
      have hvalue : c.2 = some line.2 := by
        rw [← h c hc, hkey]
        exact (Toml.lookup_eq_some_iff_mem hlines).mpr hline
      exact hfit c hc line.2 hvalue
    · exact isReadable_lineEntry.mp
        (hreadable (lineEntry line) (List.mem_map_of_mem hline) (hnames ▸ hname))
  · intro hlinesFit e he _
    obtain ⟨line, hline, rfl⟩ := List.mem_map.mp he
    exact isReadable_lineEntry.mpr (hlinesFit line hline)

/-- A record read from lines has its fields set if no line holds an integer out of range. -/
theorem foldlM_setByName?_lines (hnodup : (fields.map Field.name).Nodup)
    (hcommute : fields.Pairwise Field.Commute)
    (hnames : fields.map Field.name = choices.map Prod.fst)
    (hfit : ∀ c ∈ choices, ∀ v ∈ c.2, v.Fits) (hlines : (lines.map Prod.fst).Nodup)
    (h : ListChoices lines choices) (r : σ) :
    (lines.map lineEntry).foldlM (setByName? fields) r
      = if ∀ line ∈ lines, line.2.Fits then
          setFields? fields (lines.map lineEntry) r else none := by
  have hkeys : ((lines.map lineEntry).map Prod.fst).Nodup := by
    simpa [lineEntry, Function.comp_def] using hlines
  have hreadable := othersReadable_lines hnames hfit hlines h
  rw [foldlM_setByName? hnodup hcommute hkeys]
  simp only [hreadable]

end Lines

theorem fits_string (t : Option Text) : ∀ v ∈ t.map Scalar.string, v.Fits := by
  intro v hv
  obtain ⟨t, -, rfl⟩ := Option.map_eq_some_iff.mp hv
  exact trivial

theorem fits_pixels (n : Option UInt32) :
    ∀ v ∈ n.map (fun n => Scalar.integer n.toNat), v.Fits := by
  intro v hv
  obtain ⟨n, -, rfl⟩ := Option.map_eq_some_iff.mp hv
  have hsize : n.toNat < Nat.pow 2 128 := Nat.lt_trans n.toNat_lt (by decide)
  exact ⟨by omega, Int.ofNat_lt.mpr hsize⟩

/-- A document section with the chosen settings and further lines. -/
theorem DocumentOverrides.foldlM_lines {o : DocumentOverrides} {lines : List (Text × Scalar)}
    (hlines : (lines.map Prod.fst).Nodup) (h : ListChoices lines o.choices)
    (d : DocumentSettings) :
    (lines.map lineEntry).foldlM (setByName? DocumentSettings.fields) d
      = if ∀ line ∈ lines, line.2.Fits then some (o.apply d) else none := by
  have hfit : ∀ c ∈ o.choices, ∀ v ∈ c.2, v.Fits := by
    simp only [choices, List.forall_mem_cons, List.not_mem_nil, false_implies, implies_true,
      and_true]
    exact ⟨fits_string _, fits_string _, fits_pixels _, fits_pixels _⟩
  rw [← o.setFields?_lines h]
  exact foldlM_setByName?_lines DocumentSettings.names_nodup DocumentSettings.fields_commute rfl
    hfit hlines h d

/-- A section of styles with the chosen settings and further lines. -/
theorem StyleOverrides.foldlM_lines {o : StyleOverrides} {lines : List (Text × Scalar)}
    (hlines : (lines.map Prod.fst).Nodup) (h : ListChoices lines o.choices) (s : Styles) :
    (lines.map lineEntry).foldlM (setByName? Styles.fields) s
      = if ∀ line ∈ lines, line.2.Fits then some (o.apply s) else none := by
  have hfit : ∀ c ∈ o.choices, ∀ v ∈ c.2, v.Fits := by
    simp only [choices, List.forall_mem_cons, List.not_mem_nil, false_implies, implies_true,
      and_true]
    exact ⟨fits_string _, fits_string _, fits_string _, fits_string _, fits_string _⟩
  rw [← o.setFields?_lines h]
  exact foldlM_setByName?_lines Styles.names_nodup Styles.fields_commute rfl hfit hlines h s

/-! ### Whole files -/

/-- A section is read from the lines of its table, or stays as it is if there is no such table. -/
theorem setIf?_section {σ : Type} {fields : List (Field σ)} (name : Text) (get : Settings → σ)
    (put : Settings → σ → Settings) (hput : ∀ s, put s (get s) = s) {d : Listing}
    (htop : ∀ line ∈ d.top, line.1 ≠ name) (s : Settings) :
    Field.setIf? ⟨name, fun v s => (readRecord? fields (get s) v).map (put s)⟩
      (d.entries.get? name) s
      = (((d.linesOf name).map lineEntry).foldlM (setByName? fields) (get s)).map (put s) := by
  rw [Listing.get?_entries htop, Listing.linesOf]
  cases d.tables.lookup name with
  | none => exact congrArg some (hput s).symm
  | some lines => rfl

section File

variable {o : Overrides} {d : Listing} (h : o.IsListedBy d)
include h

/-- The sections and all that stands beside them make up the whole listing. -/
theorem Overrides.IsListedBy.fits_iff :
    d.Fits ↔ OthersReadable Settings.fields d.entries ∧
      (∀ line ∈ d.linesOf "document".toList, line.2.Fits) ∧
      ∀ line ∈ d.linesOf "styles".toList, line.2.Fits := by
  constructor
  · intro hfits
    refine ⟨?_, hfits.linesOf _, hfits.linesOf _⟩
    intro e he _
    rcases List.mem_append.mp he with he | he
    · obtain ⟨line, hline, rfl⟩ := List.mem_map.mp he
      exact isReadable_lineEntry.mpr (hfits.1 line hline)
    · obtain ⟨t, ht, rfl⟩ := List.mem_map.mp he
      exact isReadable_tableEntry.mpr (hfits.2 t ht)
  · rintro ⟨hothers, hdocument, hstyles⟩
    have hnames : ∀ name, name ≠ "document".toList → name ≠ "styles".toList →
        name ∉ Settings.fields.map Field.name := by
      intro name hdocument hstyles hmem
      rcases List.mem_cons.mp hmem with rfl | hmem
      · exact hdocument rfl
      · exact hstyles (List.mem_singleton.mp hmem)
    constructor
    · intro line hline
      exact isReadable_lineEntry.mp (hothers (lineEntry line)
        (List.mem_append_left _ (List.mem_map_of_mem hline))
        (hnames _ (h.top line hline).1 (h.top line hline).2))
    · intro t ht
      by_cases hdoc : t.1 = "document".toList
      · rwa [← h.wellFormed.linesOf_eq ht, hdoc]
      by_cases hsty : t.1 = "styles".toList
      · rwa [← h.wellFormed.linesOf_eq ht, hsty]
      exact isReadable_tableEntry.mp (hothers (tableEntry t)
        (List.mem_append_right _ (List.mem_map_of_mem ht)) (hnames _ hdoc hsty))

theorem Overrides.IsListedBy.setIf?_document (s : Settings) :
    Field.setIf? ⟨"document".toList, fun v s =>
        (readRecord? DocumentSettings.fields s.document v).map fun l => { s with document := l }⟩
      (d.entries.get? "document".toList) s
      = if ∀ line ∈ d.linesOf "document".toList, line.2.Fits then
          some { s with document := o.document.apply s.document } else none := by
  rw [setIf?_section _ (·.document) (fun s l => { s with document := l }) (fun _ => rfl)
    fun line hline => (h.top line hline).1,
    o.document.foldlM_lines (h.wellFormed.linesOf_nodup _) h.document]
  split <;> rfl

theorem Overrides.IsListedBy.setIf?_styles (s : Settings) :
    Field.setIf? ⟨"styles".toList, fun v s =>
        (readRecord? Styles.fields s.styles v).map fun st => { s with styles := st }⟩
      (d.entries.get? "styles".toList) s
      = if ∀ line ∈ d.linesOf "styles".toList, line.2.Fits then
          some { s with styles := o.styles.apply s.styles } else none := by
  rw [setIf?_section _ (·.styles) (fun s st => { s with styles := st }) (fun _ => rfl)
    fun line hline => (h.top line hline).2,
    o.styles.foldlM_lines (h.wellFormed.linesOf_nodup _) h.styles]
  split <;> rfl

theorem Overrides.IsListedBy.setFields?_entries (s : Settings) :
    setFields? Settings.fields d.entries s
      = if (∀ line ∈ d.linesOf "document".toList, line.2.Fits) ∧
          ∀ line ∈ d.linesOf "styles".toList, line.2.Fits then some (o.apply s) else none := by
  rw [Settings.fields, setFields?_cons, h.setIf?_document]
  by_cases hdocument : ∀ line ∈ d.linesOf "document".toList, line.2.Fits
  · rw [if_pos hdocument, Option.bind_some, setFields?_cons, h.setIf?_styles]
    by_cases hstyles : ∀ line ∈ d.linesOf "styles".toList, line.2.Fits
    · rw [if_pos hstyles, if_pos ⟨hdocument, hstyles⟩]
      rfl
    · rw [if_neg hstyles, if_neg fun hboth => hstyles hboth.2]
      rfl
  · rw [if_neg hdocument, if_neg fun hboth => hdocument hboth.1]
    rfl

/-- A listing of chosen settings is read as the standard settings with these replaced, if no
integer in it is out of range. -/
theorem Overrides.IsListedBy.ofEntries?_eq :
    Settings.ofEntries? d.entries
      = if d.Fits then some (o.apply Settings.standard) else none := by
  have hkeys : (d.entries.map Prod.fst).Nodup := by
    simpa [Listing.entries, lineEntry, tableEntry, Function.comp_def] using h.wellFormed.names_nodup
  have hfits := h.fits_iff
  rw [Settings.ofEntries?, foldlM_setByName? Settings.names_nodup Settings.fields_commute hkeys,
    h.setFields?_entries]
  by_cases hothers : OthersReadable Settings.fields d.entries
  · simp only [hfits, hothers, true_and, if_true]
  · simp only [hfits, hothers, false_and, if_false]

end File

/-! ### The built-in file -/

theorem Settings.compiled_eq_standard : compiled = standard := by
  have hread : ofToml? standardFile = some standard := by decide +kernel
  rw [compiled, hread, Option.getD_some]

/-! ### Settings files -/

/-- A choice of settings can be listed in a text, and any text that lists it is read as the settings
of the built-in file with the chosen ones replaced. Order, spelling and further lines make no
difference, unless a further line holds an integer that does not fit 128 bits. -/
theorem Settings.ofToml?_of_isListedBy {o : Overrides} {d : Listing} (h : o.IsListedBy d) :
    (∃ t, d.Spelled t) ∧
      ∀ t, d.Spelled t → ofToml? t = if d.Fits then some (o.apply compiled) else none := by
  refine ⟨d.exists_spelled, fun t ht => ?_⟩
  rw [ofToml?, Toml.parse?_spelled h.wellFormed ht, Option.bind_some, h.ofEntries?_eq,
    compiled_eq_standard]

/-- The tables are the other way round, a title has escapes, and other names stand between. -/
theorem Settings.ofToml?_of_isListedBy_shuffled :
    let o : Overrides := { document := { title := some ['é', '"'], width := some 4294967295 },
                           styles := { li := some [] } }
    let d : Listing :=
      { tables := [("styles".toList, [("li".toList, .string [])]),
          ("more".toList, [("title".toList, .integer (-7))]),
          ("document".toList, [("width".toList, .integer 4294967295),
            ("note".toList, .string ['x']), ("title".toList, .string ['é', '"'])])] }
    let t : Text := ("[styles]\nli = \"\"\n\n[more]\ntitle = -7\n\n[document]\n" ++
      "width = 4294967295\nnote = \"x\"\ntitle = \"\\u00E9\\\"\"\n").toList
    o.IsListedBy d ∧ d.Spelled t ∧ ofToml? t = some (o.apply compiled) := by
  intro o d t
  have h : o.IsListedBy d := by decide
  have hdigits : List.Forall₂ Toml.IsHexDigit ['0', '0', 'E', '9'] [0, 0, 14, 9] :=
    .cons (.inl rfl) (.cons (.inl rfl) (.cons (.inr rfl) (.cons (.inl rfl) .nil)))
  have htitle : Toml.SpelledText ['é', '"'] "\\u00E9\\\"".toList :=
    .cons (.code (List.mem_cons_of_mem _ List.mem_cons_self) hdigits rfl)
      (.cons (.letter (by decide)) .nil)
  have ht : d.Spelled t :=
    ⟨_, .row (.header _) <| .row (.line _ (.string .nil)) <| .blank <|
      .row (.header _) <| .row (.line _ (.integer _)) <| .blank <|
      .row (.header _) <| .row (.line _ (.integer _)) <|
        .row (.line _ (.string (.cons (.plain (by decide)) .nil))) <|
        .row (.line _ (.string htitle)) <| .blank .nil, by decide +kernel⟩
  refine ⟨h, ht, ?_⟩
  rw [(ofToml?_of_isListedBy h).2 t ht]
  exact if_pos (by decide)

/-- A further line with an integer of 129 bits makes a difference. -/
theorem Settings.ofToml?_ne_of_long_integer :
    let d : Listing :=
      { tables := [("document".toList,
          [("extra".toList, .integer 340282366920938463463374607431768211456)])] }
    let t : Text := "[document]\nextra = 340282366920938463463374607431768211456\n".toList
    Overrides.IsListedBy {} d ∧ d.Spelled t ∧ ofToml? t ≠ some (Overrides.apply {} compiled) := by
  intro d t
  have h : Overrides.IsListedBy {} d := by decide
  have ht : d.Spelled t :=
    ⟨_, .row (.header _) <| .row (.line _ (.integer _)) <| .blank .nil, by decide +kernel⟩
  have hnone : ofToml? t = none := by decide +kernel
  refine ⟨h, ht, ?_⟩
  rw [hnone]
  exact nofun

end MeetingMail
