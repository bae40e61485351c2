import MeetingMail.Settings.Basic
import MeetingMail.Toml.Document

/-!
Settings as TOML text describes them.

* A `Field` names a part of a record and says which values may set it.
* `readRecord?` sets the fields of a record from a table by name, or from an array by position.
  What it does not mention keeps its value, and what it cannot use makes it fail.
* `Settings.ofToml?` reads a whole text over the standard settings, and `Settings.compiled` is what
  it reads in the file that is built into the program.
-/

namespace MeetingMail

open Toml (Value)

/-- A named part of a record, with the values that may set it. -/
structure Field (σ : Type) where
  name : Text
  set? : Value → σ → Option σ

/-! ### Records -/

/-- Sets the field that a key names. Under any other key a value need only be readable. -/
def setByName? {σ : Type} (fields : List (Field σ)) (record : σ) (entry : Text × Value) :
    Option σ :=
  match fields.find? (·.name == entry.1) with
  | some field => field.set? entry.2 record
  | none => if entry.2.isReadable then some record else none

/-- A record with the parts that a value describes. An array gives the fields in their order, and
what it holds beyond the last field is passed over. A date or time describes no part. -/
def readRecord? {σ : Type} (fields : List (Field σ)) (record : σ) : Value → Option σ
  | .table _ entries => entries.foldlM (setByName? fields) record
  | .array _ items => (fields.zip items).foldlM (fun r (field, v) => field.set? v r) record
  | .moment _ => some record
  | _ => none

/-! ### Single values -/

def textOf? : Value → Option Text
  | .string t => some t
  | _ => none

/-- The number of pixels of an integer that fits 32 bits. -/
def pixelsOf? : Value → Option UInt32
  | .integer i => i.value?.bind fun n =>
      if 0 ≤ n ∧ n < UInt32.size then some (UInt32.ofNat n.toNat) else none
  | _ => none

/-! ### The sections of a settings file -/

/-- The fields of the document section, in the order in which an array gives them. -/
def DocumentSettings.fields : List (Field DocumentSettings) :=
  [⟨"title".toList, fun v l => (textOf? v).map fun t => { l with title := t }⟩,
   ⟨"footer".toList, fun v l => (textOf? v).map fun t => { l with footer := t }⟩,
   ⟨"width".toList, fun v l => (pixelsOf? v).map fun n => { l with width := n }⟩,
   ⟨"spacer_height".toList, fun v l => (pixelsOf? v).map fun n => { l with spacerHeight := n }⟩]

/-- The fields of the styles, in the order in which an array gives them. -/
def Styles.fields : List (Field Styles) :=
  [⟨"h2".toList, fun v s => (textOf? v).map fun t => { s with h2 := t }⟩,
   ⟨"h3".toList, fun v s => (textOf? v).map fun t => { s with h3 := t }⟩,
   ⟨"p".toList, fun v s => (textOf? v).map fun t => { s with p := t }⟩,
   ⟨"ul".toList, fun v s => (textOf? v).map fun t => { s with ul := t }⟩,
   ⟨"li".toList, fun v s => (textOf? v).map fun t => { s with li := t }⟩]

namespace Settings

def fields : List (Field Settings) :=
  [⟨"document".toList, fun v s =>
      (readRecord? DocumentSettings.fields s.document v).map fun l => { s with document := l }⟩,
   ⟨"styles".toList, fun v s =>
      (readRecord? Styles.fields s.styles v).map fun st => { s with styles := st }⟩]

/-- The standard settings with the parts that the entries of a settings file describe. -/
def ofEntries? (entries : Toml.Entries) : Option Settings :=
  entries.foldlM (setByName? fields) standard

/-- The standard settings with the parts that a settings file describes. -/
def ofToml? (text : Text) : Option Settings := (Toml.parse? text).bind ofEntries?

/-! ### The settings file that comes with the program -/

/-- The settings file that is built into the program. -/
def standardFile : Text := Text.unlines
  ["# Defaults compiled into the binary. Any key may be overridden from a user".toList,
    "# config file passed with --config.".toList,
    [],
    "[document]".toList,
    "title = \"Meeting Summary\"".toList,
    "footer = \"Sent from AI Meeting Summarizer\"".toList,
    "width = 640".toList,
    "spacer_height = 10".toList,
    [],
    "# Inline styles, since most mail clients drop <style> blocks.".toList,
    "[styles]".toList,
    "h2 = \"margin:18px 0 10px;font-size:16px;color:#0f172a\"".toList,
    "h3 = \"margin:16px 0 8px;font-size:14px;color:#0f172a\"".toList,
    "p = \"margin:8px 0;line-height:1.6;color:#111827\"".toList,
    "ul = \"margin:6px 0 6px 20px;padding:0;color:#111827\"".toList,
    "li = \"margin:4px 0;line-height:1.5\"".toList,
    []]

/-- The settings that the built-in file describes. -/
def compiled : Settings := (ofToml? standardFile).getD standard

end Settings

end MeetingMail
