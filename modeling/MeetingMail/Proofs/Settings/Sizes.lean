import MeetingMail.Proofs.Email.Sizes
import MeetingMail.Proofs.Settings.Edits
import MeetingMail.Proofs.Toml.Row

/-!
The sizes of an email, from a settings file to the page.

* `SizeKey` names the two sizes, and `SizeKey.Shows` says where a page shows them.
* `ofEntries?_hasMore`: one more entry in the document section sets its field after all others.
* `Settings.ofToml?_size`: a line that sets a size to an integer of any length is refused unless
  the integer fits 32 bits, and then the page shows this integer and nothing else has changed.
-/

namespace MeetingMail

open Toml (Entries HasMore Inserts IntegerLiteral IsLine SpelledInteger Value)

/-! ### The two sizes -/

/-- The sizes that the document section of a settings file may set. -/
inductive SizeKey where
  | width
  | spacerHeight
  deriving DecidableEq, Repr

namespace SizeKey

def name : SizeKey → Text
  | width => "width".toList
  | spacerHeight => "spacer_height".toList

def put (size : UInt32) (d : DocumentSettings) : SizeKey → DocumentSettings
  | width => { d with width := size }
  | spacerHeight => { d with spacerHeight := size }

def field (key : SizeKey) : Field DocumentSettings :=
  ⟨key.name, fun v d => (pixelsOf? v).map fun size => key.put size d⟩

theorem field_mem (key : SizeKey) : key.field ∈ DocumentSettings.fields := by
  cases key with
  | width => exact .tail _ (.tail _ (.head _))
  | spacerHeight => exact .tail _ (.tail _ (.tail _ (.head _)))

theorem isBareKey_name (key : SizeKey) : Toml.IsBareKey key.name := by
  cases key <;> decide

/-- Where the page of a summary shows a size: the width in two attributes of the inner table, and
the height of the gaps in each of them. -/
def Shows (content size : Text) (r : Reading) : SizeKey → Prop
  | width => r.opened "table".toList
      = [tableShown "100%".toList "background:#f3f4f6;padding:24px 0".toList,
          tableShown size ("max-width:".toList ++ size
            ++ ("px;background:#ffffff;border:1px solid #e5e7eb;border-radius:12px;".toList
              ++ "overflow:hidden".toList))]
  | spacerHeight => r.opened "div".toList
      = List.replicate ((Block.ofSummary content).count .spacer)
          [("style".toList, "height:".toList ++ size ++ "px".toList)]

/-- The page of a summary shows the sizes of its settings. -/
theorem exists_shows (key : SizeKey) (size : UInt32) (s : Settings) (title : Option Text)
    (content : Text) :
    ∃ r, scan? (renderSummary { s with document := key.put size s.document } title content) = some r
      ∧ key.Shows content (Text.ofNat size.toNat) r.decode := by
  obtain ⟨r, hscan, htable, hdiv⟩ :=
    opened_renderSummary { s with document := key.put size s.document } title content
  refine ⟨r, hscan, ?_⟩
  cases key with
  | width => exact htable
  | spacerHeight => exact hdiv

end SizeKey

/-! ### One more entry in the document section -/

section Entry

variable {f : Field DocumentSettings} (hf : f ∈ DocumentSettings.fields)
include hf

/-- A section of one entry sets one field. -/
theorem documentField_set?_singleton (v : Value) (s : Settings) :
    documentField.set? (.table .header [(f.name, v)]) s
      = (f.set? v s.document).map fun d => { s with document := d } := by
  have hread : readRecord? DocumentSettings.fields s.document (.table .header [(f.name, v)])
      = f.set? v s.document := by
    rw [readRecord?, List.foldlM_cons, setByName?_of_mem DocumentSettings.names_nodup hf]
    exact Option.bind_fun_some _
  rw [documentField_set?, hread]

theorem documentField_set?_inserts {v : Value} {sub sub' : Entries}
    (h : Inserts (f.name, v) sub sub') (hnew : sub.get? f.name = none) (s : Settings) :
    documentField.set? (.table .header sub') s
      = (documentField.set? (.table .header sub) s).bind
          (documentField.set? (.table .header [(f.name, v)])) := by
  have hread : readRecord? DocumentSettings.fields s.document (.table .header sub')
      = (readRecord? DocumentSettings.fields s.document (.table .header sub)).bind (f.set? v) :=
    foldlM_setByName?_inserts DocumentSettings.names_nodup DocumentSettings.fields_commute hf h hnew
      s.document
  rw [documentField_set?, documentField_set?, hread]
  cases readRecord? DocumentSettings.fields s.document (.table .header sub) with
  | none => rfl
  | some d => exact (documentField_set?_singleton hf v { s with document := d }).symm

/-- One more entry in the document section sets its field, after all others. -/
theorem ofEntries?_hasMore {v : Value} {es es' : Entries} (hkeys : (es.map Prod.fst).Nodup)
    (hkeys' : (es'.map Prod.fst).Nodup) (h : HasMore "document".toList (f.name, v) es es')
    (hnew : (es.tableAt "document".toList).get? f.name = none) :
    Settings.ofEntries? es'
      = (Settings.ofEntries? es).bind fun s =>
          (f.set? v s.document).map fun d => { s with document := d } := by
  obtain ⟨sub, sub', hsub, hsub', hinserts⟩ := h.table
  rw [Toml.Entries.tableAt_of_get? hsub] at hnew
  have hset (s : Settings) := documentField_set?_singleton hf v s
  rw [← funext hset]
  exact foldlM_setByName?_replaced Settings.names_nodup Settings.fields_commute documentField_mem
    hkeys hkeys' h.others hsub hsub' (documentField_set?_inserts hf hinserts hnew) _

end Entry

/-! ### Sizes in a settings file -/

/-- A line that sets a size of the document to an integer in decimal, of any length, in any place
among the lines of the section. Nothing is said about the other lines but that the settings can be
read without this one, and that the size is not set already. Unless the integer fits 32 bits, the
whole settings are refused. If it does, then it is the size, all else is as it was, and the page of
every summary shows the integer. -/
theorem Settings.ofToml?_size (key : SizeKey) {n : Int} {w : Text} (hw : SpelledInteger n w)
    {front back : List Text} {ss ss' : List (List Toml.Statement)}
    (hfront : List.Forall₂ IsLine front ss) (hback : List.Forall₂ IsLine back ss')
    {before : List Toml.Statement} {body : List Toml.Assignment}
    (hplace : ss.flatten = before ++ .header (.table ["document".toList]) :: body.map .assignment)
    {gap gap' behind : Text} (hgap : ∀ c ∈ gap, Toml.isSpace c = true)
    (hgap' : ∀ c ∈ gap', Toml.isSpace c = true) (hbehind : IsLine behind []) {s : Settings}
    (hs : ofToml? (Text.unlines (front ++ back)) = some s)
    (hnew : ∀ es, Toml.parse? (Text.unlines (front ++ back)) = some es →
      (es.tableAt "document".toList).get? key.name = none) :
    let t := Text.unlines (front ++ (key.name ++ gap ++ '=' :: gap' ++ w ++ behind) :: back)
    (0 ≤ n ∧ n ≤ 4294967295 → ∃ size : UInt32, (size.toNat : Int) = n ∧
      ofToml? t = some { s with document := key.put size s.document } ∧
      ∀ title content, ∃ r,
        scan? (renderSummary { s with document := key.put size s.document } title content) = some r
          ∧ key.Shows content (Toml.decimal n) r.decode) ∧
    (¬ (0 ≤ n ∧ n ≤ 4294967295) → ofToml? t = none) := by
  obtain ⟨i, hvalue, hword⟩ := hw.exists_isValue
  have hline := Toml.isLine_pair key.isBareKey_name hgap hgap' hword hbehind
  obtain ⟨es, hes, hsettings⟩ := Option.bind_eq_some_iff.mp hs
  obtain ⟨es', hes', hmore⟩ :=
    Toml.parse?_insert_line hfront hback hline hes hplace (hnew es hes)
  have hread := ofEntries?_hasMore key.field_mem (Toml.nodup_parse? hes) (Toml.nodup_parse? hes')
    hmore (hnew es hes)
  rw [hsettings, Option.bind_some] at hread
  have hset : key.field.set? (.integer i) s.document
      = (pixelsOf? (.integer i)).map fun size => key.put size s.document := rfl
  rw [hset, pixelsOf?_integer hvalue] at hread
  intro t
  have ht : ofToml? t = ofEntries? es' := by rw [ofToml?, hes', Option.bind_some]
  constructor
  · intro hn
    rw [if_pos hn] at hread
    have hsize : n.toNat < 2 ^ 32 := by omega
    have htoNat : (UInt32.ofNat n.toNat).toNat = n.toNat := UInt32.toNat_ofNat_of_lt hsize
    refine ⟨UInt32.ofNat n.toNat, by omega, ht.trans hread, fun title content => ?_⟩
    have hdecimal : Toml.decimal n = Text.ofNat (UInt32.ofNat n.toNat).toNat := by
      rw [Toml.decimal, if_neg (by omega), htoNat]
      congr 1
      omega
    rw [hdecimal]
    exact key.exists_shows _ s title content
  · intro hn
    rw [if_neg hn] at hread
    exact ht.trans hread

/-- The largest width, with a sign, underscores and a comment. The next integer is refused. -/
theorem Settings.ofToml?_size_largest :
    ofToml? "[document]\nwidth=+4_294967_295 # px\nspacer_height = 0".toList
        = some { document := { width := 4294967295, spacerHeight := 0 } } ∧
      ofToml? "[document]\nwidth=+4_294967_296 # px\nspacer_height = 0".toList = none := by
  have hheader : IsLine "[document]".toList [.header (.table ["document".toList])] :=
    @Toml.isLine_header "document".toList (by decide)
  have hspacer : Toml.Row.Spelled (.line "spacer_height".toList (.integer 0))
      "spacer_height = 0".toList := .line _ (.integer 0)
  have hfront := List.Forall₂.cons hheader List.Forall₂.nil
  have hback := List.Forall₂.cons (hspacer.isLine (by decide)) List.Forall₂.nil
  have hnone : ∀ c ∈ ([] : Text), Toml.isSpace c = true := by simp
  have hspace : ∀ c ∈ [' '], Toml.isSpace c = true := by simp [Toml.isSpace]
  have hpx : ∀ c ∈ " px".toList, Toml.isPlain c = true := by simp [Toml.isPlain]
  have hbehind : IsLine " # px".toList [] := Toml.isLine_comment hspace hpx
  have hs : ofToml? (Text.unlines (["[document]".toList] ++ ["spacer_height = 0".toList]))
      = some { document := { spacerHeight := 0 } } := by decide +kernel
  have hnew : ∀ es,
      Toml.parse? (Text.unlines (["[document]".toList] ++ ["spacer_height = 0".toList])) = some es →
      (es.tableAt "document".toList).get? SizeKey.width.name = none := by
    intro es hes
    rw [Toml.parse?_unlines (List.rel_append hfront hback)] at hes
    obtain rfl := Option.some.inj hes
    rfl
  have hgroups (c : Char) : Toml.Grouped ['4', '2', '9', '4', '9', '6', '7', '2', '9', c]
      ('4' :: '_' :: "294967_29".toList ++ [c]) :=
    .group '4' <| .next '2' <| .next '9' <| .next '4' <| .next '9' <| .next '6' <| .group '7' <|
      .next '2' <| .next '9' <| .last c
  have hfits := @ofToml?_size .width 4294967295 "+4_294967_295".toList
    (.plus 4294967295 (hgroups '5')) _ _ _ _ hfront hback [] [] rfl [] [] _ hnone hnone hbehind _ hs
    hnew
  have hexceeds := @ofToml?_size .width 4294967296 "+4_294967_296".toList
    (.plus 4294967296 (hgroups '6')) _ _ _ _ hfront hback [] [] rfl [] [] _ hnone hnone hbehind _ hs
    hnew
  obtain ⟨size, hsize, hread, -⟩ := hfits.1 (by decide)
  obtain rfl : size = 4294967295 := UInt32.toNat_inj.mp (Int.ofNat.inj hsize)
  exact ⟨hread, hexceeds.2 (by decide)⟩

end MeetingMail
