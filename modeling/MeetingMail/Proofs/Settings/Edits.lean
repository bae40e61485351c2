import Mathlib.Data.List.Nodup
import Mathlib.Data.List.Pairwise
import MeetingMail.Proofs.Settings.Fields
import MeetingMail.Proofs.Toml.Edits
import MeetingMail.Proofs.Toml.Listing

/-!
What one more entry makes of settings.

* `foldlM_setByName?_inserts`: a record that is read from a table with one more entry is the record
  read without it, with the field of the entry set.
* `foldlM_setByName?_replaced`: the same for a record that is read from two tables that differ in
  the value of one key only.
-/

namespace MeetingMail

open Toml (Entries Inserts Value)

section Fields

variable {σ : Type} {fields : List (Field σ)} {f : Field σ}

theorem Field.Commute.symm {f g : Field σ} (h : f.Commute g) : g.Commute f :=
  fun v w r => (h w v r).symm

/-- Any two fields of a record commute, if all pairs of them do. -/
theorem commute_of_mem (hcommute : fields.Pairwise Field.Commute) (hf : f ∈ fields)
    {g : Field σ} (hg : g ∈ fields) (hne : f ≠ g) : f.Commute g :=
  have : Std.Symm (@Field.Commute σ) := ⟨fun _ _ => Field.Commute.symm⟩
  hcommute.forall hf hg hne

/-- Under the name of a field, its value is set. -/
theorem setByName?_of_mem (hnames : (fields.map Field.name).Nodup) (hf : f ∈ fields) (v : Value)
    (r : σ) : setByName? fields r (f.name, v) = f.set? v r := by
  have hfind : fields.find? (·.name == f.name) = some f := by
    cases hfind : fields.find? (·.name == f.name) with
    | none => exact absurd (beq_self_eq_true f.name) (List.find?_eq_none.mp hfind f hf)
    | some g =>
        have hname : g.name = f.name := by simpa using List.find?_some hfind
        exact congrArg some
          (List.inj_on_of_nodup_map hnames (List.mem_of_find?_eq_some hfind) hf hname)
  rw [setByName?, hfind]

/-- An entry under another name than that of a field may be read before or after it is set. -/
theorem setByName?_commute (hcommute : fields.Pairwise Field.Commute) (hf : f ∈ fields)
    {e : Text × Value} (he : f.name ≠ e.1) (v : Value) (r : σ) :
    (setByName? fields r e).bind (f.set? v)
      = (f.set? v r).bind fun r => setByName? fields r e := by
  unfold setByName?
  cases hfind : fields.find? (·.name == e.1) with
  | none =>
      dsimp only
      split
      · exact (Option.bind_fun_some _).symm
      · exact (Option.bind_fun_none _).symm
  | some g =>
      have hname : g.name = e.1 := by simpa using List.find?_some hfind
      have hne : g ≠ f := by
        rintro rfl
        exact he hname
      exact commute_of_mem hcommute (List.mem_of_find?_eq_some hfind) hf hne e.2 v r

theorem foldlM_setByName?_commute (hcommute : fields.Pairwise Field.Commute) (hf : f ∈ fields)
    {es : Entries} (hes : es.get? f.name = none) (v : Value) (r : σ) :
    (es.foldlM (setByName? fields) r).bind (f.set? v)
      = (f.set? v r).bind fun r => es.foldlM (setByName? fields) r := by
  induction es generalizing r with
  | nil => exact (Option.bind_fun_some _).symm
  | cons e es ih =>
      rw [Entries.get?_cons] at hes
      split at hes
      · cases hes
      · rename_i hne
        simp only [List.foldlM_cons, Option.bind_eq_bind, Option.bind_assoc, ih hes]
        rw [← Option.bind_assoc, setByName?_commute hcommute hf hne, Option.bind_assoc]

/-- One more entry sets its field. It makes no difference in which place it stands. -/
theorem foldlM_setByName?_inserts (hnames : (fields.map Field.name).Nodup)
    (hcommute : fields.Pairwise Field.Commute) (hf : f ∈ fields) {v : Value} {es es' : Entries}
    (h : Inserts (f.name, v) es es') (hes : es.get? f.name = none) (r : σ) :
    es'.foldlM (setByName? fields) r = (es.foldlM (setByName? fields) r).bind (f.set? v) := by
  induction h generalizing r with
  | here es =>
      rw [List.foldlM_cons, setByName?_of_mem hnames hf, Option.bind_eq_bind,
        foldlM_setByName?_commute hcommute hf hes]
  | there a _ ih =>
      rw [Entries.get?_cons] at hes
      split at hes
      · cases hes
      · simp only [List.foldlM_cons, Option.bind_eq_bind, Option.bind_assoc, ih hes]

/-! ### One value replaced -/

theorem setFields?_congr {es es' : Entries} (h : ∀ g ∈ fields, es'.get? g.name = es.get? g.name)
    (r : σ) : setFields? fields es' r = setFields? fields es r := by
  induction fields generalizing r with
  | nil => rfl
  | cons g fields ih =>
      obtain ⟨hg, h⟩ := List.forall_mem_cons.mp h
      have hrest : setFields? fields es' = setFields? fields es := funext fun r => ih h r
      rw [setFields?_cons, setFields?_cons, hg, hrest]

theorem setFields?_commute (hcommute : ∀ g ∈ fields, f.Commute g) (es : Entries) (v : Value)
    (r : σ) :
    (setFields? fields es r).bind (f.set? v) = (f.set? v r).bind (setFields? fields es) := by
  induction fields generalizing r with
  | nil => exact (Option.bind_fun_some _).symm
  | cons g fields ih =>
      obtain ⟨hg, hcommute⟩ := List.forall_mem_cons.mp hcommute
      have hcons : setFields? (g :: fields) es
          = fun r => (g.setIf? (es.get? g.name) r).bind (setFields? fields es) :=
        funext fun r => setFields?_cons g fields es r
      rw [hcons]
      simp only [Option.bind_assoc, ih hcommute]
      rw [← Option.bind_assoc, hg.symm.setIf?, Option.bind_assoc]

/-- A field that gets another value, which amounts to the old one and a further one. -/
theorem setFields?_replaced (hnames : (fields.map Field.name).Nodup)
    (hcommute : fields.Pairwise Field.Commute) (hf : f ∈ fields) {v v' w : Value} {es es' : Entries}
    (hothers : ∀ k, k ≠ f.name → es'.get? k = es.get? k) (hes : es.get? f.name = some v)
    (hes' : es'.get? f.name = some v') (hset : ∀ r, f.set? v' r = (f.set? v r).bind (f.set? w))
    (r : σ) : setFields? fields es' r = (setFields? fields es r).bind (f.set? w) := by
  induction fields generalizing r with
  | nil => cases hf
  | cons g fields ih =>
      rw [List.map_cons, List.nodup_cons] at hnames
      rw [List.pairwise_cons] at hcommute
      rw [setFields?_cons, setFields?_cons]
      rcases List.mem_cons.mp hf with rfl | hf
      · have hrest : setFields? fields es' = setFields? fields es := by
          refine funext fun r => setFields?_congr (fun g hg => hothers g.name fun heq => ?_) r
          exact hnames.1 (heq ▸ List.mem_map_of_mem hg)
        have hpast : (fun r => (setFields? fields es r).bind (f.set? w))
            = fun r => (f.set? w r).bind (setFields? fields es) :=
          funext fun r => setFields?_commute hcommute.1 es w r
        rw [hes, hes', hrest, Option.bind_assoc, hpast, ← Option.bind_assoc]
        exact congrArg (Option.bind · (setFields? fields es)) (hset r)
      · have hne : g.name ≠ f.name := fun heq => hnames.1 (heq ▸ List.mem_map_of_mem hf)
        have hrest : setFields? fields es' = fun r => (setFields? fields es r).bind (f.set? w) :=
          funext fun r => ih hnames.2 hcommute.2 hf r
        rw [hothers g.name hne, hrest, Option.bind_assoc]

/-- The entries under other names are the same, so both tables can be passed over or neither. -/
theorem othersReadable_of_others (hf : f ∈ fields) {es es' : Entries}
    (hkeys : (es.map Prod.fst).Nodup) (hkeys' : (es'.map Prod.fst).Nodup)
    (hothers : ∀ k, k ≠ f.name → es'.get? k = es.get? k) (h : OthersReadable fields es) :
    OthersReadable fields es' := by
  intro e he hname
  have hne : e.1 ≠ f.name := fun heq => hname (heq ▸ List.mem_map_of_mem hf)
  have hget' := (Toml.lookup_eq_some_iff_mem hkeys').mpr he
  have hget := (hothers e.1 hne).symm.trans hget'
  exact h e ((Toml.lookup_eq_some_iff_mem hkeys).mp hget) hname

theorem foldlM_setByName?_replaced (hnames : (fields.map Field.name).Nodup)
    (hcommute : fields.Pairwise Field.Commute) (hf : f ∈ fields) {v v' w : Value} {es es' : Entries}
    (hkeys : (es.map Prod.fst).Nodup) (hkeys' : (es'.map Prod.fst).Nodup)
    (hothers : ∀ k, k ≠ f.name → es'.get? k = es.get? k) (hes : es.get? f.name = some v)
    (hes' : es'.get? f.name = some v') (hset : ∀ r, f.set? v' r = (f.set? v r).bind (f.set? w))
    (r : σ) :
    es'.foldlM (setByName? fields) r
      = (es.foldlM (setByName? fields) r).bind (f.set? w) := by
  have hreadable : OthersReadable fields es' ↔ OthersReadable fields es :=
    ⟨othersReadable_of_others hf hkeys' hkeys fun k hk => (hothers k hk).symm,
      othersReadable_of_others hf hkeys hkeys' hothers⟩
  rw [foldlM_setByName? hnames hcommute hkeys, foldlM_setByName? hnames hcommute hkeys']
  simp only [hreadable, setFields?_replaced hnames hcommute hf hothers hes hes' hset]
  split
  · rfl
  · rfl

end Fields

/-! ### Sections -/

/-- The field of the document section. -/
def documentField : Field Settings :=
  ⟨"document".toList, fun v s =>
    (readRecord? DocumentSettings.fields s.document v).map fun d => { s with document := d }⟩

theorem documentField_mem : documentField ∈ Settings.fields := .head _

theorem documentField_set? (v : Value) (s : Settings) :
    documentField.set? v s
      = (readRecord? DocumentSettings.fields s.document v).map fun d => { s with document := d } :=
  rfl

/-- The field of the section of styles. -/
def stylesField : Field Settings :=
  ⟨"styles".toList, fun v s =>
    (readRecord? Styles.fields s.styles v).map fun st => { s with styles := st }⟩

theorem stylesField_mem : stylesField ∈ Settings.fields := .tail _ (.head _)

theorem stylesField_set? (v : Value) (s : Settings) :
    stylesField.set? v s
      = (readRecord? Styles.fields s.styles v).map fun st => { s with styles := st } := rfl

end MeetingMail
