import Mathlib.Data.List.Forall2
import MeetingMail.Command.Sandbox

/-!
The spellings of a command line.

* An `Item` is one thing that is given to a run, and `Item.Spelled` are the arguments that give it.
* `Given.Spells` holds of the argument lists that give the chosen items once each, in any order and
  in any spelling. Recipients keep their order.
* `read_spelled_append`: wherever an item stands, it is read as a whole, and reading goes on behind
  it.
* `ofArguments_of_spells`: all argument lists that give the same are read alike.
-/

namespace MeetingMail

/-! ### Items and their spellings -/

/-- One thing that the arguments give. -/
inductive Item where
  | input (path : Text)
  | value (n : Named) (value : Text)
  | verbose
  deriving DecidableEq, Repr

/-- The words that no option looks like: a hyphen in front stands alone. -/
def IsWord (t : Text) : Prop := t.head? = some '-' → t = ['-']

instance (t : Text) : Decidable (IsWord t) := inferInstanceAs (Decidable (_ → _))

/-- The arguments that give an item, one or two of them. -/
inductive Item.Spelled : Item → List Text → Prop where
  | input {path : Text} : IsWord path → Spelled (.input path) [path]
  | long {n : Named} {v : Text} :
      Spelled (.value n v) ["--".toList ++ (Flag.named n).long ++ '=' :: v]
  | longApart {n : Named} {v : Text} : IsWord v →
      Spelled (.value n v) ["--".toList ++ (Flag.named n).long, v]
  | short {n : Named} {c : Char} {v : Text} : (Flag.named n).short? = some c →
      Spelled (.value n v) ['-' :: c :: '=' :: v]
  | shortApart {n : Named} {c : Char} {v : Text} : (Flag.named n).short? = some c → IsWord v →
      Spelled (.value n v) [['-', c], v]
  | shortJoined {n : Named} {c : Char} {v : Text} : (Flag.named n).short? = some c → v ≠ [] →
      v.head? ≠ some '-' → v.head? ≠ some '=' → Spelled (.value n v) ['-' :: c :: v]
  | verbose : Spelled .verbose ["--verbose".toList]
  | verboseShort : Spelled .verbose ["-v".toList]

namespace Item

def input? : Item → Option Text
  | .input path => some path
  | _ => none

/-- The value that an item gives to an option. -/
def value? (n : Named) : Item → Option Text
  | .value m v => if m = n then some v else none
  | _ => none

def verbose? : Item → Option Unit
  | .verbose => some ()
  | _ => none

theorem value?_self (n : Named) (v : Text) : value? n (.value n v) = some v := if_pos rfl

end Item

namespace Given

/-- All that is given, item by item. -/
def items (g : Given) : List Item :=
  g.input.toList.map .input
    ++ g.output.toList.map (.value .output)
    ++ g.title.toList.map (.value .title)
    ++ g.settings.toList.map (.value .settings)
    ++ g.format.toList.map (.value .format ·.name)
    ++ g.recipients.map (.value .recipient)
    ++ if g.verbose then [.verbose] else []

/-- The items of what is given in any order, but with the recipients in theirs. -/
structure Arranged (g : Given) (items : List Item) : Prop where
  perm : items.Perm g.items
  recipients : items.filterMap (Item.value? .recipient) = g.recipients

/-- The argument lists that give each chosen item once. The input may also stand last, behind the
end of the options. -/
inductive Spells (g : Given) : List Text → Prop where
  | anywhere {items : List Item} {pieces : List (List Text)} : g.Arranged items →
      List.Forall₂ Item.Spelled items pieces → Spells g pieces.flatten
  | inputLast {path : Text} {items : List Item} {pieces : List (List Text)} :
      g.input = some path → ({ g with input := none } : Given).Arranged items →
      List.Forall₂ Item.Spelled items pieces → Spells g (pieces.flatten ++ ["--".toList, path])

/-- No path that is given is empty. -/
structure HasPaths (g : Given) : Prop where
  input : g.input ≠ some []
  output : g.output ≠ some []
  settings : g.settings ≠ some []

/-- The effect of an item. -/
def add (g : Given) : Item → Except Refusal Given
  | .input path => g.setInput path
  | .value n v => g.setValue n v
  | .verbose => g.flip .verbose

end Given

/-! ### Items are read as a whole -/

theorem IsWord.mayBeValue {t : Text} (h : IsWord t) : mayBeValue t = true := by
  unfold MeetingMail.mayBeValue
  split
  · cases h rfl
  · rfl

theorem IsWord.argument {t : Text} (h : IsWord t) : Argument.of t = .plain t := by
  unfold Argument.of
  split
  · cases h rfl
  · cases h rfl
  · cases h rfl
  · rfl

/-- The letter of an option with a value makes a cluster. -/
theorem Argument.of_short {n : Named} {c : Char} (h : (Flag.named n).short? = some c) (t : Text) :
    Argument.of ('-' :: c :: t) = .cluster (c :: t) := by
  cases n <;> cases h <;> rfl

namespace Given

variable {g : Given} {n : Named} {c : Char} {a v : Text}

theorem readCluster_short (h : (Flag.named n).short? = some c) (hv : v ≠ []) :
    g.readCluster (c :: v) = (g.setValue n (dropEquals v)).map (·, none) := by
  rw [readCluster, Flag.ofShort?_eq_of_short? h]
  dsimp only
  rw [if_neg hv]

theorem readCluster_short_apart (h : (Flag.named n).short? = some c) :
    g.readCluster [c] = .ok (g, some n) := by
  rw [readCluster, Flag.ofShort?_eq_of_short? h]
  rfl

theorem dropEquals_of_head? (h : v.head? ≠ some '=') : dropEquals v = v := by
  unfold dropEquals
  split
  · exact absurd rfl h
  · rfl

theorem readArgument_long (g : Given) (n : Named) (v : Text) :
    g.readArgument (.long (Flag.named n).long (some v)) = (g.setValue n v).map (·, none) := by
  unfold readArgument
  dsimp only
  rw [Flag.ofLong?_long]

theorem readArgument_long_apart (g : Given) (n : Named) :
    g.readArgument (.long (Flag.named n).long none) = .ok (g, some n) := by
  unfold readArgument
  dsimp only
  rw [Flag.ofLong?_long]

/-- An argument that leaves no option without its value. -/
theorem read_cons_of_settled {x : Argument} {r : Except Refusal Given} (ha : Argument.of a = x)
    (hx : x ≠ .endOfOptions) (h : g.readArgument x = r.map (·, none)) (rest : List Text) :
    g.read (a :: rest) = r.bind (·.read rest) := by
  rw [read, ha, if_neg hx, h]
  cases r <;> rfl

/-- An argument that leaves an option without its value, and the value. -/
theorem read_cons_of_waiting {x : Argument} (ha : Argument.of a = x) (hx : x ≠ .endOfOptions)
    (h : g.readArgument x = .ok (g, some n)) (hv : IsWord v) (rest : List Text) :
    g.read (a :: v :: rest) = (g.setValue n v).bind (·.read rest) := by
  rw [read, ha, if_neg hx, h]
  dsimp only
  rw [if_pos hv.mayBeValue]

/-- The arguments of an item have the effect of the item, whatever comes before and behind. -/
theorem read_spelled_append {i : Item} {piece : List Text} (h : i.Spelled piece) (g : Given)
    (rest : List Text) : g.read (piece ++ rest) = (g.add i).bind (·.read rest) := by
  cases h with
  | input hword => exact read_cons_of_settled hword.argument nofun rfl rest
  | @long n v =>
      have hargument : Argument.of ("--".toList ++ (Flag.named n).long ++ '=' :: v)
          = .long (Flag.named n).long (some v) := by
        cases n <;> rfl
      exact read_cons_of_settled hargument nofun (g.readArgument_long n v) rest
  | @longApart n v hv =>
      have hargument : Argument.of ("--".toList ++ (Flag.named n).long)
          = .long (Flag.named n).long none := by
        cases n <;> rfl
      exact read_cons_of_waiting hargument nofun (g.readArgument_long_apart n) hv rest
  | @short n c v hshort =>
      have hcluster := readCluster_short (g := g) hshort (List.cons_ne_nil '=' v)
      exact read_cons_of_settled (Argument.of_short hshort _) nofun hcluster rest
  | shortApart hshort hv =>
      have hcluster := readCluster_short_apart (g := g) hshort
      exact read_cons_of_waiting (Argument.of_short hshort _) nofun hcluster hv rest
  | shortJoined hshort hne _ hequals =>
      have hcluster := readCluster_short (g := g) hshort hne
      rw [dropEquals_of_head? hequals] at hcluster
      exact read_cons_of_settled (Argument.of_short hshort _) nofun hcluster rest
  | verbose => exact read_cons_of_settled (x := .long "verbose".toList none) rfl nofun rfl rest
  | verboseShort =>
      have hcluster : g.readCluster ['v'] = (g.flip .verbose).map (·, none) := by
        rw [readCluster]
        change (g.flip .verbose).bind _ = _
        cases g.flip .verbose <;> rfl
      exact read_cons_of_settled (x := .cluster ['v']) rfl nofun hcluster rest

/-! ### Items in any order -/

/-- The values of an option. Only recipients may have more than one. -/
def slot (g : Given) : Named → List Text
  | .output => g.output.toList
  | .title => g.title.toList
  | .settings => g.settings.toList
  | .format => (g.format.map Format.name).toList
  | .recipient => g.recipients

/-- Holds if items give just this. -/
structure Holds (g : Given) (items : List Item) : Prop where
  input : items.filterMap Item.input? = g.input.toList
  values : ∀ n, items.filterMap (Item.value? n) = g.slot n
  verbose : items.filterMap Item.verbose? = (if g.verbose then some () else none).toList

theorem toList_injective {α : Type} {o o' : Option α} (h : o.toList = o'.toList) : o = o' := by
  cases o <;> cases o' <;> simp_all

theorem length_toList_le {α : Type} (o : Option α) : o.toList.length ≤ 1 := by
  cases o <;> simp

/-- A slot for one value that takes one more is empty, and gets the value of the whole. -/
theorem eq_none_of_toList_append {α : Type} {o o' : Option α} {a : α} {as : List α}
    (h : o.toList ++ a :: as = o'.toList) : o = none ∧ o' = some a := by
  cases o <;> cases o' <;> simp_all

/-- What items give is determined by them. -/
theorem Holds.unique {g g' : Given} {items : List Item} (h : g.Holds items)
    (h' : g'.Holds items) : g = g' := by
  have hslot (n : Named) : g.slot n = g'.slot n := (h.values n).symm.trans (h'.values n)
  have hinput := toList_injective (h.input.symm.trans h'.input)
  have houtput : g.output = g'.output := toList_injective (hslot .output)
  have htitle : g.title = g'.title := toList_injective (hslot .title)
  have hsettings : g.settings = g'.settings := toList_injective (hslot .settings)
  have hrecipients : g.recipients = g'.recipients := hslot .recipient
  have hformat : g.format = g'.format := by
    refine Option.map_injective (fun f f' hname => ?_) (toList_injective (hslot .format))
    rw [← Option.some_inj, ← Format.ofName?_name f, hname, Format.ofName?_name]
  have hverbose : g.verbose = g'.verbose := by
    have := toList_injective (h.verbose.symm.trans h'.verbose)
    cases hg : g.verbose <;> cases hg' : g'.verbose <;> simp_all
  cases g
  cases g'
  simp_all

/-- The items of a whole give it. -/
theorem holds_items (g : Given) : g.Holds g.items := by
  have hformat : g.format.toList.map Format.name = (g.format.map Format.name).toList := by
    cases g.format <;> rfl
  refine ⟨?_, fun n => ?_, ?_⟩
  · cases hverbose : g.verbose <;>
      simp [items, hverbose, Function.comp_def, Item.input?]
  · cases hverbose : g.verbose <;> cases n <;>
      simp [items, slot, hverbose, hformat, Function.comp_def, Item.value?]
  · cases hverbose : g.verbose <;>
      simp [items, hverbose, Function.comp_def, Item.verbose?]

theorem eq_of_perm_of_length_le {α : Type} {l l' : List α} (h : l.Perm l')
    (hlength : l'.length ≤ 1) : l = l' := by
  match l', hlength with
  | [], _ => exact List.perm_nil.mp h
  | [a], _ => exact List.perm_singleton.mp h

/-- In whatever order the items of a whole are, they give it. -/
theorem Arranged.holds {g : Given} {items : List Item} (h : g.Arranged items) :
    g.Holds items := by
  have hitems := g.holds_items
  refine ⟨?_, fun n => ?_, ?_⟩
  · have hperm := h.perm.filterMap Item.input?
    rw [hitems.input] at hperm
    exact eq_of_perm_of_length_le hperm (length_toList_le _)
  · have hperm := h.perm.filterMap (Item.value? n)
    rw [hitems.values] at hperm
    cases n with
    | recipient => exact h.recipients
    | output | title | settings | format =>
        exact eq_of_perm_of_length_le hperm (length_toList_le _)
  · have hperm := h.perm.filterMap Item.verbose?
    rw [hitems.verbose] at hperm
    exact eq_of_perm_of_length_le hperm (length_toList_le _)

theorem fill_none {α : Type} {slot value : Option α} {a : α} (hslot : slot = none)
    (hvalue : value = some a) : fill slot value = .ok (some a) := by
  subst hslot hvalue
  rfl

theorem path?_of_ne_nil {t : Text} (h : t ≠ []) : path? t = some t := if_neg h

/-- A value of the whole can be set where the values in front of it have been. -/
theorem exists_setValue {g b : Given} (hpaths : g.HasPaths) {n : Named} {v : Text}
    {rest : List Text} (h : b.slot n ++ v :: rest = g.slot n) :
    ∃ b', b.setValue n v = .ok b' ∧ b'.input = b.input ∧ b'.verbose = b.verbose ∧
      ∀ m, b'.slot m = b.slot m ++ (Item.value? m (.value n v)).toList := by
  cases n with
  | output =>
      obtain ⟨hslot, hvalue⟩ := eq_none_of_toList_append h
      have hne : v ≠ [] := fun hnil => hpaths.output (hnil ▸ hvalue)
      refine ⟨{ b with output := some v }, ?_, rfl, rfl, fun m => ?_⟩
      · rw [setValue, fill_none hslot (path?_of_ne_nil hne)]
        rfl
      · cases m <;> simp [slot, Item.value?, hslot]
  | settings =>
      obtain ⟨hslot, hvalue⟩ := eq_none_of_toList_append h
      have hne : v ≠ [] := fun hnil => hpaths.settings (hnil ▸ hvalue)
      refine ⟨{ b with settings := some v }, ?_, rfl, rfl, fun m => ?_⟩
      · rw [setValue, fill_none hslot (path?_of_ne_nil hne)]
        rfl
      · cases m <;> simp [slot, Item.value?, hslot]
  | title =>
      obtain ⟨hslot, -⟩ := eq_none_of_toList_append h
      refine ⟨{ b with title := some v }, ?_, rfl, rfl, fun m => ?_⟩
      · rw [setValue, fill_none hslot rfl]
        rfl
      · cases m <;> simp [slot, Item.value?, hslot]
  | format =>
      obtain ⟨hslot, hvalue⟩ := eq_none_of_toList_append h
      obtain ⟨f, -, rfl⟩ := Option.map_eq_some_iff.mp hvalue
      rw [Option.map_eq_none_iff] at hslot
      refine ⟨{ b with format := some f }, ?_, rfl, rfl, fun m => ?_⟩
      · rw [setValue, fill_none hslot (Format.ofName?_name f)]
        rfl
      · cases m <;> simp [slot, Item.value?, hslot]
  | recipient =>
      refine ⟨{ b with recipients := b.recipients ++ [v] }, rfl, rfl, rfl, fun m => ?_⟩
      cases m <;> simp [slot, Item.value?]

/-- An item of the whole can be added where the items in front of it have been. -/
theorem Holds.exists_add {g b : Given} (hpaths : g.HasPaths) {items rest : List Item} {i : Item}
    (hb : b.Holds items) (hg : g.Holds (items ++ i :: rest)) :
    ∃ b', b.add i = .ok b' ∧ b'.Holds (items ++ [i]) := by
  cases i with
  | input path =>
      have hinput := hg.input
      rw [List.filterMap_append, hb.input] at hinput
      obtain ⟨hslot, hvalue⟩ := eq_none_of_toList_append hinput
      have hne : path ≠ [] := fun hnil => hpaths.input (hnil ▸ hvalue)
      refine ⟨{ b with input := some path }, ?_, ?_, fun n => ?_, ?_⟩
      · rw [Given.add, setInput, fill_none hslot (path?_of_ne_nil hne)]
        rfl
      · rw [List.filterMap_append, hb.input, hslot]
        rfl
      · rw [List.filterMap_append, hb.values n]
        exact List.append_nil _
      · rw [List.filterMap_append, hb.verbose]
        exact List.append_nil _
  | value n v =>
      have hvalues := hg.values n
      rw [List.filterMap_append, hb.values n,
        List.filterMap_cons_some (Item.value?_self n v)] at hvalues
      obtain ⟨b', hset, hinput, hverbose, hslot⟩ := exists_setValue hpaths hvalues
      refine ⟨b', hset, ?_, fun m => ?_, ?_⟩
      · rw [List.filterMap_append, hb.input, hinput]
        exact List.append_nil _
      · rw [List.filterMap_append, hb.values m, hslot m, List.filterMap_cons]
        cases Item.value? m (.value n v) <;> rfl
      · rw [List.filterMap_append, hb.verbose, hverbose]
        exact List.append_nil _
  | verbose =>
      have hverbose := hg.verbose
      rw [List.filterMap_append, hb.verbose] at hverbose
      obtain ⟨hslot, -⟩ := eq_none_of_toList_append hverbose
      have hsilent : b.verbose = false := by simpa using hslot
      refine ⟨{ b with verbose := true }, ?_, ?_, fun n => ?_, ?_⟩
      · rw [Given.add, flip, hsilent]
        rfl
      · rw [List.filterMap_append, hb.input]
        exact List.append_nil _
      · rw [List.filterMap_append, hb.values n]
        exact List.append_nil _
      · rw [List.filterMap_append, hb.verbose, hsilent]
        rfl

/-- The rest of a whole can be added to what its first items give. -/
theorem Holds.exists_foldlM_add {g b : Given} (hpaths : g.HasPaths) {items rest : List Item}
    (hb : b.Holds items) (hg : g.Holds (items ++ rest)) :
    ∃ b', rest.foldlM Given.add b = .ok b' ∧ b'.Holds (items ++ rest) := by
  induction rest generalizing items b with
  | nil =>
      rw [List.append_nil]
      exact ⟨b, rfl, hb⟩
  | cons i rest ih =>
      obtain ⟨b', hadd, hb'⟩ := hb.exists_add hpaths hg
      rw [List.append_cons] at hg ⊢
      obtain ⟨b'', hfold, hb''⟩ := ih hb' hg
      refine ⟨b'', ?_, hb''⟩
      rw [List.foldlM_cons, hadd]
      exact hfold

/-- Items that give a whole lead to it, one after the other. -/
theorem Holds.foldlM_add {g : Given} (hpaths : g.HasPaths) {items : List Item}
    (hg : g.Holds items) : items.foldlM Given.add {} = .ok g := by
  have hempty : ({} : Given).Holds [] := ⟨rfl, fun n => by cases n <;> rfl, rfl⟩
  obtain ⟨b, hfold, hb⟩ := hempty.exists_foldlM_add hpaths hg
  rw [hfold, hb.unique hg]

/-! ### Whole argument lists -/

/-- The arguments of items have the effect of the items, one after the other. -/
theorem read_flatten_append {items : List Item} {pieces : List (List Text)}
    (h : List.Forall₂ Item.Spelled items pieces) (g : Given) (rest : List Text) :
    g.read (pieces.flatten ++ rest) = (items.foldlM add g).bind (·.read rest) := by
  induction h generalizing g with
  | nil => rfl
  | @cons i piece items pieces hpiece _ ih =>
      rw [List.flatten_cons, List.append_assoc, read_spelled_append hpiece, List.foldlM_cons]
      rcases hadd : g.add i with refusal | g'
      · rfl
      · exact ih g'

/-- Arguments that spell a whole are read as the whole. -/
theorem read_of_spells {g : Given} (hpaths : g.HasPaths) {args : List Text} (h : g.Spells args) :
    ({} : Given).read args = .ok g := by
  cases h with
  | @anywhere items pieces harranged hpieces =>
      have hread := read_flatten_append hpieces {} []
      rw [harranged.holds.foldlM_add hpaths, List.append_nil] at hread
      exact hread
  | @inputLast path items pieces hinput harranged hpieces =>
      have hpaths' : ({ g with input := none } : Given).HasPaths :=
        ⟨nofun, hpaths.output, hpaths.settings⟩
      have hne : path ≠ [] := fun hnil => hpaths.input (hnil ▸ hinput)
      rw [read_flatten_append hpieces, harranged.holds.foldlM_add hpaths']
      change [path].foldlM setInput _ = _
      rw [List.foldlM_cons, setInput, fill_none rfl (path?_of_ne_nil hne), ← hinput]
      rfl

end Given

/-- Argument lists that give the same items are read as the same options, whatever the order of the
items is and however each is spelled. What no item gives has its standard value. So runs with such
arguments end alike and leave the same behind. -/
theorem Options.ofArguments_of_spells :
    (∀ (g : Given) (args : List Text), g.HasPaths → g.Spells args →
      Options.ofArguments args = .ok
        { input := g.input
          output := g.output
          title := g.title
          settings := g.settings.getD "summail.toml".toList
          format := g.format.getD .html
          recipients := g.recipients
          verbose := g.verbose }) ∧
    ∀ (g : Given) (args args' : List Text) (s : Sandbox), g.HasPaths → g.Spells args →
      g.Spells args' → s.command args = s.command args' := by
  have hread {g : Given} {args : List Text} (hpaths : g.HasPaths) (h : g.Spells args) :
      Options.ofArguments args = .ok g.options := by
    rw [Options.ofArguments, Given.read_of_spells hpaths h]
    rfl
  refine ⟨fun g args => hread, fun g args args' s hpaths h h' => ?_⟩
  rw [Sandbox.command, Sandbox.command, Host.command, Host.command, hread hpaths h,
    hread hpaths h']

/-- Two argument lists for one run. Their values look like options and hold equals signs, and one
of them names its input behind the end of the options. -/
theorem Options.ofArguments_of_spells_shuffled :
    let g : Given :=
      { input := ['-'], output := "out".toList, title := "=-v".toList, settings := "c".toList,
        format := some .message, recipients := ["-a".toList, []], verbose := true }
    let args := ["-t==-v".toList, "--to=-a".toList, "-".toList, "--verbose".toList,
      "-fmessage".toList, "--output".toList, "out".toList, "--to".toList, [], "-c".toList,
      "c".toList]
    let args' := ["-v".toList, "--to=-a".toList, "--config=c".toList, "--to=".toList,
      "--title==-v".toList, "-oout".toList, "--format".toList, "message".toList, "--".toList,
      "-".toList]
    g.HasPaths ∧ g.Spells args ∧ g.Spells args' ∧
      Options.ofArguments args = .ok
        { input := some ['-'], output := some "out".toList, title := some "=-v".toList,
          settings := "c".toList, format := .message, recipients := ["-a".toList, []],
          verbose := true } ∧
      Sandbox.command args { files := {} } = Sandbox.command args' { files := {} } := by
  intro g args args'
  have hpaths : g.HasPaths := ⟨by decide, by decide, by decide⟩
  have hspells : g.Spells args :=
    @Given.Spells.anywhere g
      [.value .title "=-v".toList, .value .recipient "-a".toList, .input ['-'], .verbose,
        .value .format "message".toList, .value .output "out".toList, .value .recipient [],
        .value .settings "c".toList]
      _ ⟨by decide, rfl⟩
      (.cons (.short rfl) (.cons .long (.cons (.input (by decide)) (.cons .verbose
        (.cons (.shortJoined rfl (by decide) (by decide) (by decide))
          (.cons (.longApart (by decide)) (.cons (.longApart (by decide))
            (.cons (.shortApart rfl (by decide)) .nil))))))))
  have hspells' : g.Spells args' :=
    @Given.Spells.inputLast g ['-']
      [.verbose, .value .recipient "-a".toList, .value .settings "c".toList, .value .recipient [],
        .value .title "=-v".toList, .value .output "out".toList, .value .format "message".toList]
      _ rfl ⟨by decide, rfl⟩
      (.cons .verboseShort (.cons .long (.cons .long (.cons .long (.cons .long
        (.cons (.shortJoined rfl (by decide) (by decide) (by decide))
          (.cons (.longApart (by decide)) .nil)))))))
  exact ⟨hpaths, hspells, hspells', Options.ofArguments_of_spells.1 g args hpaths hspells,
    Options.ofArguments_of_spells.2 g args args' _ hpaths hspells hspells'⟩

end MeetingMail
