import MeetingMail.Proofs.Settings.Edits
import MeetingMail.Proofs.Settings.Overrides
import MeetingMail.Proofs.Toml.Array

/-!
Sections of a settings file that are written as arrays.

* `SectionName.keys` lists the keys of a section in the order in which an array gives their values,
  and `SectionName.choose?` says what values choose by their positions.
* `readRecord?_array`: an array is read as the table that has its items under the names of the
  fields.
* `Settings.ofToml?_array`: a settings file with a section as an array is read as the one with the
  section as a table, with a line for each item that there is a key for.
-/

namespace MeetingMail

open Toml (Entries IsLine Scalar SpelledItems SpelledRows Value)

/-! ### Values by position -/

/-- The text that a value gives, if it gives one. -/
def Toml.Scalar.text? : Scalar → Option Text
  | .string t => some t
  | .integer _ => none

/-- The size that a value gives: an integer that fits 32 bits. -/
def Toml.Scalar.size? : Scalar → Option UInt32
  | .string _ => none
  | .integer n => if 0 ≤ n ∧ n ≤ 4294967295 then some (UInt32.ofNat n.toNat) else none

/-- The document settings that values choose by their positions. Every one of them has to fit its
place, and those beyond the last place choose nothing. -/
def DocumentOverrides.ofList? (vs : List Scalar) : Option DocumentOverrides := do
  let title ← vs[0]?.mapM Scalar.text?
  let footer ← vs[1]?.mapM Scalar.text?
  let width ← vs[2]?.mapM Scalar.size?
  let spacerHeight ← vs[3]?.mapM Scalar.size?
  return { title, footer, width, spacerHeight }

/-- The styles that values choose by their positions. -/
def StyleOverrides.ofList? (vs : List Scalar) : Option StyleOverrides := do
  let h2 ← vs[0]?.mapM Scalar.text?
  let h3 ← vs[1]?.mapM Scalar.text?
  let p ← vs[2]?.mapM Scalar.text?
  let ul ← vs[3]?.mapM Scalar.text?
  let li ← vs[4]?.mapM Scalar.text?
  return { h2, h3, p, ul, li }

/-- The sections of a settings file. -/
inductive SectionName where
  | document
  | styles
  deriving DecidableEq, Repr

namespace SectionName

def text : SectionName → Text
  | document => "document".toList
  | styles => "styles".toList

/-- The keys of a section, in the order in which an array gives their values. -/
def keys : SectionName → List Text
  | document => ["title".toList, "footer".toList, "width".toList, "spacer_height".toList]
  | styles => ["h2".toList, "h3".toList, "p".toList, "ul".toList, "li".toList]

/-- What values choose by their positions in a section. -/
def choose? (vs : List Scalar) : SectionName → Option Overrides
  | document => (DocumentOverrides.ofList? vs).map fun o => { document := o }
  | styles => (StyleOverrides.ofList? vs).map fun o => { styles := o }

def field : SectionName → Field Settings
  | document => documentField
  | styles => stylesField

theorem field_mem (name : SectionName) : name.field ∈ Settings.fields := by
  cases name with
  | document => exact documentField_mem
  | styles => exact stylesField_mem

theorem name_field (name : SectionName) : name.field.name = name.text := by
  cases name <;> rfl

theorem isBareKey_text (name : SectionName) : Toml.IsBareKey name.text := by
  cases name <;> decide

theorem nodup_keys (name : SectionName) : name.keys.Nodup := by
  cases name <;> decide

theorem isBareKey_of_mem_keys (name : SectionName) : ∀ k ∈ name.keys, Toml.IsBareKey k := by
  cases name <;> decide

end SectionName

/-! ### Records from arrays -/

section Records

variable {σ : Type} {fields : List (Field σ)}

theorem foldlM_set?_zip (hnames : (fields.map Field.name).Nodup) {gs : List (Field σ)}
    (hgs : ∀ g ∈ gs, g ∈ fields) (items : List Value) (r : σ) :
    (gs.zip items).foldlM (fun r (f, v) => f.set? v r) r
      = ((gs.map Field.name).zip items).foldlM (setByName? fields) r := by
  -- The names are looked up among all fields, while those that are left get fewer.
  induction gs generalizing items r with
  | nil => rfl
  | cons g gs ih =>
      cases items with
      | nil => rfl
      | cons v items =>
          obtain ⟨hg, hgs⟩ := List.forall_mem_cons.mp hgs
          rw [List.zip_cons_cons, List.map_cons, List.zip_cons_cons, List.foldlM_cons,
            List.foldlM_cons, setByName?_of_mem hnames hg]
          exact congrArg (Option.bind _) (funext fun r => ih hgs items r)

/-- A record is read from an array as from the table that has the items under the names of the
fields. -/
theorem readRecord?_array (hnames : (fields.map Field.name).Nodup) (items : List Value) (r : σ) :
    readRecord? fields r (.array false items)
      = readRecord? fields r (.table .header ((fields.map Field.name).zip items)) :=
  foldlM_set?_zip hnames (fun _ hg => hg) items r

theorem readRecord?_array_nil (items : List Value) (r : σ) :
    readRecord? [] r (.array false items) = some r := rfl

/-- The fields of a record are set in their order, each to the item in its place. -/
theorem readRecord?_array_cons (f : Field σ) (items : List Value) (r : σ) :
    readRecord? (f :: fields) r (.array false items)
      = (f.setIf? items.head? r).bind fun r => readRecord? fields r (.array false items.tail) := by
  cases items with
  | nil =>
      rw [readRecord?, List.zip_nil_right]
      change some r = (some r).bind fun r => readRecord? fields r (.array false [])
      rw [Option.bind_some, readRecord?, List.zip_nil_right]
      rfl
  | cons v items => rw [readRecord?, List.zip_cons_cons, List.foldlM_cons]; rfl

/-- A field that is set to the value in some place, if there is one. -/
theorem setIf?_getElem? {α : Type} {read : Value → Option α} {choose : Scalar → Option α}
    (hread : ∀ v : Scalar, read v.value = choose v) (name : Text) (put : α → σ → σ) (get : σ → α)
    (hput : ∀ r, put (get r) r = r) (vs : List Scalar) (i : Nat) (r : σ) :
    Field.setIf? ⟨name, fun v r => (read v).map fun a => put a r⟩ (vs.map Scalar.value)[i]? r
      = (vs[i]?.mapM choose).map fun a => put (a.getD (get r)) r := by
  rw [List.getElem?_map]
  cases vs[i]? with
  | none => exact congrArg some (hput r).symm
  | some v =>
      change (read v.value).map _ = _
      rw [hread]
      cases h : choose v <;> simp [h]

end Records

theorem textOf?_value (v : Scalar) : textOf? v.value = v.text? := by
  cases v <;> rfl

theorem pixelsOf?_eq_size? (v : Scalar) : pixelsOf? v.value = v.size? := by
  cases v with
  | string t => rfl
  | integer n => exact pixelsOf?_integer (Toml.value?_decimalLiteral n)

theorem DocumentOverrides.readRecord?_array (vs : List Scalar) (d : DocumentSettings) :
    readRecord? DocumentSettings.fields d (.array false (vs.map Scalar.value))
      = (ofList? vs).map fun o => o.apply d := by
  have htitle (d : DocumentSettings) := setIf?_getElem? textOf?_value "title".toList
    (fun t d => { d with title := t }) (·.title) (fun _ => rfl) vs 0 d
  have hfooter (d : DocumentSettings) := setIf?_getElem? textOf?_value "footer".toList
    (fun t d => { d with footer := t }) (·.footer) (fun _ => rfl) vs 1 d
  have hwidth (d : DocumentSettings) := setIf?_getElem? pixelsOf?_eq_size? "width".toList
    (fun n d => { d with width := n }) (·.width) (fun _ => rfl) vs 2 d
  have hspacer (d : DocumentSettings) := setIf?_getElem? pixelsOf?_eq_size? "spacer_height".toList
    (fun n d => { d with spacerHeight := n }) (·.spacerHeight) (fun _ => rfl) vs 3 d
  -- After `i` fields, the next one gets the first item of what is left, which was in place `i`.
  simp only [DocumentSettings.fields, readRecord?_array_cons, readRecord?_array_nil,
    List.head?_eq_getElem?, List.getElem?_tail, htitle, hfooter, hwidth, hspacer, ofList?,
    Option.bind_eq_bind, Option.bind_map, Option.map_bind, Function.comp_def]
  rfl

theorem StyleOverrides.readRecord?_array (vs : List Scalar) (s : Styles) :
    readRecord? Styles.fields s (.array false (vs.map Scalar.value))
      = (ofList? vs).map fun o => o.apply s := by
  have hh2 (s : Styles) := setIf?_getElem? textOf?_value "h2".toList
    (fun t s => { s with h2 := t }) (·.h2) (fun _ => rfl) vs 0 s
  have hh3 (s : Styles) := setIf?_getElem? textOf?_value "h3".toList
    (fun t s => { s with h3 := t }) (·.h3) (fun _ => rfl) vs 1 s
  have hp (s : Styles) := setIf?_getElem? textOf?_value "p".toList
    (fun t s => { s with p := t }) (·.p) (fun _ => rfl) vs 2 s
  have hul (s : Styles) := setIf?_getElem? textOf?_value "ul".toList
    (fun t s => { s with ul := t }) (·.ul) (fun _ => rfl) vs 3 s
  have hli (s : Styles) := setIf?_getElem? textOf?_value "li".toList
    (fun t s => { s with li := t }) (·.li) (fun _ => rfl) vs 4 s
  simp only [Styles.fields, readRecord?_array_cons, readRecord?_array_nil,
    List.head?_eq_getElem?, List.getElem?_tail, hh2, hh3, hp, hul, hli, ofList?,
    Option.bind_eq_bind, Option.bind_map, Option.map_bind, Function.comp_def]
  rfl

/-! ### Sections as arrays -/

namespace SectionName

open Toml.Listing (lineEntry)

/-- Values under the keys of a section, in their order. Those beyond the last key are left out. -/
def lines (name : SectionName) (vs : List Scalar) : List (Text × Scalar) := name.keys.zip vs

theorem set?_array (name : SectionName) (vs : List Scalar) (s : Settings) :
    name.field.set? (.array false (vs.map Scalar.value)) s
      = (name.choose? vs).map fun o => o.apply s := by
  cases name with
  | document =>
      rw [field, documentField_set?, DocumentOverrides.readRecord?_array, choose?, Option.map_map,
        Option.map_map]
      rfl
  | styles =>
      rw [field, stylesField_set?, StyleOverrides.readRecord?_array, choose?, Option.map_map,
        Option.map_map]
      rfl

theorem map_lineEntry_lines (name : SectionName) (vs : List Scalar) :
    (name.lines vs).map lineEntry = name.keys.zip (vs.map Scalar.value) := by
  rw [List.zip_map_right]
  rfl

/-- An array sets what the table with its items under the keys sets, whatever the items are. -/
theorem set?_array_eq_table (name : SectionName) (items : List Value) (s : Settings) :
    name.field.set? (.array false items) s
      = name.field.set? (.table .header (name.keys.zip items)) s := by
  cases name with
  | document =>
      rw [field, documentField_set?, readRecord?_array DocumentSettings.names_nodup]
      rfl
  | styles =>
      rw [field, stylesField_set?, readRecord?_array Styles.names_nodup]
      rfl

theorem set?_table (name : SectionName) (vs : List Scalar) (s : Settings) :
    name.field.set? (.table .header ((name.lines vs).map lineEntry)) s
      = (name.choose? vs).map fun o => o.apply s := by
  rw [map_lineEntry_lines, ← set?_array_eq_table, set?_array]

theorem ofEntries?_inserts (name : SectionName) {v : Value} {es es' : Entries}
    (h : Toml.Inserts (name.text, v) es es') (hnew : es.get? name.text = none) :
    Settings.ofEntries? es' = (Settings.ofEntries? es).bind (name.field.set? v) := by
  rw [← name.name_field] at h hnew
  exact foldlM_setByName?_inserts Settings.names_nodup Settings.fields_commute name.field_mem h hnew
    _

theorem bare_lines (name : SectionName) (vs : List Scalar) :
    ∀ row ∈ Toml.Row.header name.text :: Toml.Listing.lineRows (name.lines vs),
      Toml.IsBareKey row.name := by
  refine List.forall_mem_cons.mpr ⟨name.isBareKey_text, fun row hrow => ?_⟩
  obtain ⟨line, hline, rfl⟩ := List.mem_map.mp hrow
  exact name.isBareKey_of_mem_keys _ (List.of_mem_zip hline).1

theorem nodup_lines (name : SectionName) (vs : List Scalar) :
    ((name.lines vs).map Prod.fst).Nodup := by
  rw [lines, List.zip_eq_zip_take_min, List.map_fst_zip (by simp)]
  exact name.nodup_keys.sublist (List.take_sublist ..)

end SectionName

/-- A section of a settings file that is written as an array, of any length and in any spelling. It
is read as the section that is written as a table, with a line for each item that there is a key
for: either way the items choose what is replaced, and if one of these does not fit its place, then
the whole settings are refused. Nothing is said about the other lines but that they can be read
without the section, and that those in front of an array have no header. -/
theorem Settings.ofToml?_array (name : SectionName) (vs : List Scalar)
    {front back : List Text} {ss ss' : List (List Toml.Statement)}
    (hfront : List.Forall₂ IsLine front ss) (hback : List.Forall₂ IsLine back ss')
    {body : List Toml.Assignment} (hplace : ss.flatten = body.map .assignment)
    {es : Entries} (hes : Toml.parse? (Text.unlines (front ++ back)) = some es)
    (hnew : es.get? name.text = none)
    {gap gap' behind : Text} (hgap : ∀ c ∈ gap, Toml.isSpace c = true)
    (hgap' : ∀ c ∈ gap', Toml.isSpace c = true) (hbehind : IsLine behind []) :
    (∃ items, SpelledItems vs items) ∧
    (∃ table, SpelledRows (.header name.text :: Toml.Listing.lineRows (name.lines vs)) table) ∧
    ∀ items, SpelledItems vs items → ∀ table,
      SpelledRows (.header name.text :: Toml.Listing.lineRows (name.lines vs)) table →
      let array := name.text ++ gap ++ '=' :: gap' ++ ('[' :: items) ++ behind
      ofToml? (Text.unlines (front ++ array :: back))
          = ofToml? (Text.unlines (front ++ back ++ table)) ∧
        ofToml? (Text.unlines (front ++ back ++ table))
          = (ofToml? (Text.unlines (front ++ back))).bind fun s =>
              (name.choose? vs).map fun o => o.apply s := by
  refine ⟨Toml.exists_spelledItems vs, Toml.exists_spelledRows _, ?_⟩
  intro items hitems table hrows array
  have hread : ofToml? (Text.unlines (front ++ back)) = ofEntries? es := by
    rw [ofToml?, hes, Option.bind_some]
  have harray : ofToml? (Text.unlines (front ++ array :: back))
      = (ofEntries? es).bind fun s => (name.choose? vs).map fun o => o.apply s := by
    have hline := Toml.isLine_pair name.isBareKey_text hgap hgap' hitems.isValue hbehind
    obtain ⟨es', hes', hinserts⟩ := Toml.parse?_insert_top hfront hback hline hes hplace hnew
    rw [ofToml?, hes', Option.bind_some, name.ofEntries?_inserts hinserts hnew]
    exact congrArg _ (funext fun s => name.set?_array vs s)
  have htable : ofToml? (Text.unlines (front ++ back ++ table))
      = (ofEntries? es).bind fun s => (name.choose? vs).map fun o => o.apply s := by
    have hparse := @Toml.parse?_append_table _ _ (List.rel_append hfront hback) _ hes
      (name.text, name.lines vs) hnew (name.bare_lines vs) (name.nodup_lines vs) _ hrows
    have hinserts := Toml.inserts_concat (Toml.Listing.tableEntry (name.text, name.lines vs)) es
    rw [ofToml?, hparse, Option.bind_some, name.ofEntries?_inserts hinserts hnew]
    exact congrArg _ (funext fun s => name.set?_table vs s)
  exact ⟨harray.trans htable.symm, hread ▸ htable⟩

/-- An array with a comment between its items and one item too many, in front of another section. An
integer in the place of the footer is refused. -/
theorem Settings.ofToml?_array_document :
    let array := "document = [\"T\",\"\", # px\n 700,5,9]\n[styles]\np = \"\"".toList
    let table := ("[styles]\np = \"\"\n[document]\ntitle = \"T\"\nfooter = \"\"\n" ++
      "width = 700\nspacer_height = 5").toList
    ofToml? array = ofToml? table ∧
      ofToml? table = some { document := { title := ['T'], footer := [], width := 700,
                                           spacerHeight := 5 },
                             styles := { p := [] } } ∧
      ofToml? "document = [\"T\",640]\n[styles]\np = \"\"".toList = none := by
  intro array table
  have hheader : IsLine "[styles]".toList [.header (.table ["styles".toList])] :=
    @Toml.isLine_header "styles".toList (by decide)
  have hp : Toml.Row.Spelled (.line ['p'] (.string [])) "p = \"\"".toList := .line _ (.string .nil)
  have hback := List.Forall₂.cons hheader (.cons (hp.isLine (by decide)) .nil)
  have hes : Toml.parse? (Text.unlines ([] ++ ["[styles]".toList, "p = \"\"".toList]))
      = some [("styles".toList, .table .header [(['p'], .string [])])] :=
    Toml.parse?_unlines hback
  have hrest : ofToml? (Text.unlines ([] ++ ["[styles]".toList, "p = \"\"".toList]))
      = some { styles := { p := [] } } := by
    rw [ofToml?, hes]
    rfl
  have hspace : ∀ c ∈ [' '], Toml.isSpace c = true := by simp [Toml.isSpace]
  have hread (vs : List Scalar) := @ofToml?_array .document vs [] _ [] _ .nil hback [] rfl _ hes rfl
    [' '] [' '] [] hspace hspace Toml.isLine_nil
  have htitle : Scalar.Spelled (.string ['T']) "\"T\"".toList :=
    .string (.cons (.plain (by decide)) .nil)
  have hpx : ∀ c ∈ " px".toList, Toml.isPlain c = true := by simp [Toml.isPlain]
  have hcomment : Toml.IsGap " # px\n ".toList :=
    (Toml.isGap_singleton (by decide)).append
      ((Toml.isGap_comment hpx).append (Toml.isGap_singleton (by decide)))
  have hitems := SpelledItems.cons Toml.isGap_nil htitle Toml.isGap_nil <|
    .cons Toml.isGap_nil (.string .nil) Toml.isGap_nil <|
    .cons hcomment (.integer 700) Toml.isGap_nil <|
    .cons Toml.isGap_nil (.integer 5) Toml.isGap_nil <|
    .last Toml.isGap_nil (.integer 9) Toml.isGap_nil
  have hrows := SpelledRows.row (.header "document".toList) <|
    .row (.line "title".toList htitle) <| .row (.line "footer".toList (.string .nil)) <|
    .row (.line "width".toList (.integer 700)) <|
    .row (.line "spacer_height".toList (.integer 5)) .nil
  obtain ⟨harray, htable⟩ := (hread _).2.2 _ hitems _ hrows
  have hrefused := SpelledItems.cons Toml.isGap_nil htitle Toml.isGap_nil <|
    .last Toml.isGap_nil (.integer 640) Toml.isGap_nil
  obtain ⟨_, hrefusedRows⟩ := (hread [.string ['T'], .integer 640]).2.1
  obtain ⟨hnone, hnone'⟩ := (hread _).2.2 _ hrefused _ hrefusedRows
  rw [hrest, Option.bind_some] at htable hnone'
  exact ⟨harray, htable, hnone.trans hnone'⟩

end MeetingMail
