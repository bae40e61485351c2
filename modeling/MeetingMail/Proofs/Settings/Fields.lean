import MeetingMail.Settings.Toml

/-!
The order of the entries in a table of settings makes no difference.

* `Field.Commute` holds of two fields that may be set in either order; all fields of a record of
  settings commute.
* `foldlM_setByName?`: a record read from a table is the record with its fields set in the order
  of the fields, whatever the order of the entries. Entries under other names are only required to
  be readable.
-/

namespace MeetingMail

open Toml (Entries Value)

section Fields

variable {σ : Type}

/-- Setting one field and then the other gives the same record, or fails, in either order. -/
def Field.Commute (f g : Field σ) : Prop :=
  ∀ (v w : Value) (r : σ), (f.set? v r).bind (g.set? w) = (g.set? w r).bind (f.set? v)

/-- A record with a field set to a value, if there is a value. -/
def Field.setIf? (f : Field σ) (v : Option Value) (r : σ) : Option σ :=
  match v with
  | none => some r
  | some v => f.set? v r

/-- A record with its fields set one after the other to what the entries hold under their names. -/
def setFields? (fields : List (Field σ)) (es : Entries) (r : σ) : Option σ :=
  fields.foldlM (fun r f => f.setIf? (es.get? f.name) r) r

/-- Holds if all entries under other names than those of the fields are readable. -/
def OthersReadable (fields : List (Field σ)) (es : Entries) : Prop :=
  ∀ e ∈ es, e.1 ∉ fields.map Field.name → e.2.isReadable = true

instance (fields : List (Field σ)) (es : Entries) : Decidable (OthersReadable fields es) :=
  inferInstanceAs (Decidable (∀ e ∈ es, e.1 ∉ fields.map Field.name → e.2.isReadable = true))

theorem Field.Commute.setIf? {f g : Field σ} (h : f.Commute g) (v : Option Value) (w : Value)
    (r : σ) : (f.setIf? v r).bind (g.set? w) = (g.set? w r).bind (f.setIf? v) := by
  cases v with
  | none => exact (Option.bind_some _ _).trans (Option.bind_fun_some _).symm
  | some v => exact h v w r

theorem othersReadable_cons {fields : List (Field σ)} {e : Text × Value} {es : Entries} :
    OthersReadable fields (e :: es) ↔
      (e.1 ∉ fields.map Field.name → e.2.isReadable = true) ∧ OthersReadable fields es :=
  List.forall_mem_cons

theorem setFields?_cons (f : Field σ) (fields : List (Field σ)) (es : Entries) (r : σ) :
    setFields? (f :: fields) es r
      = (f.setIf? (es.get? f.name) r).bind (setFields? fields es) := by
  rw [setFields?, List.foldlM_cons]
  rfl

theorem setFields?_nil (fields : List (Field σ)) (r : σ) : setFields? fields [] r = some r := by
  induction fields with
  | nil => rfl
  | cons f fields ih => rw [setFields?_cons]; exact ih

/-- An entry under another name than those of the fields has no effect. -/
theorem setFields?_of_not_mem {fields : List (Field σ)} {e : Text × Value}
    (h : e.1 ∉ fields.map Field.name) (es : Entries) (r : σ) :
    setFields? fields (e :: es) r = setFields? fields es r := by
  induction fields generalizing r with
  | nil => rfl
  | cons f fields ih =>
      rw [List.map_cons, List.mem_cons, not_or] at h
      have hrest : setFields? fields (e :: es) = setFields? fields es := funext fun r => ih h.2 r
      rw [setFields?_cons, setFields?_cons, Entries.get?_cons, if_neg (Ne.symm h.1), hrest]

/-- The entry of a field may be set in front of all others. -/
theorem setFields?_of_mem {fields : List (Field σ)} (hnames : (fields.map Field.name).Nodup)
    (hcommute : fields.Pairwise Field.Commute) {f : Field σ} (hf : f ∈ fields) (v : Value)
    {es : Entries} (hes : es.get? f.name = none) (r : σ) :
    setFields? fields ((f.name, v) :: es) r = (f.set? v r).bind (setFields? fields es) := by
  induction fields generalizing r with
  | nil => cases hf
  | cons g fields ih =>
      rw [List.map_cons, List.nodup_cons] at hnames
      rw [List.pairwise_cons] at hcommute
      rw [setFields?_cons]
      rcases List.mem_cons.mp hf with rfl | hf
      · have hrest : setFields? fields ((f.name, v) :: es) = setFields? fields es :=
          funext fun r => setFields?_of_not_mem hnames.1 es r
        have hthen : setFields? (f :: fields) es = setFields? fields es := by
          funext r
          rw [setFields?_cons, hes]
          rfl
        rw [Entries.get?_cons, if_pos rfl, hrest, hthen]
        rfl
      · -- The field is set after `g`, with which it commutes.
        have hne : g.name ≠ f.name := fun heq => hnames.1 (heq ▸ List.mem_map_of_mem hf)
        have hrest : setFields? fields ((f.name, v) :: es)
            = fun r => (f.set? v r).bind (setFields? fields es) :=
          funext fun r => ih hnames.2 hcommute.2 hf r
        have hthen : setFields? (g :: fields) es
            = fun r => (g.setIf? (es.get? g.name) r).bind (setFields? fields es) :=
          funext fun r => setFields?_cons g fields es r
        rw [Entries.get?_cons, if_neg hne, hrest, hthen, ← Option.bind_assoc, ← Option.bind_assoc,
          (hcommute.1 f hf).setIf? _ v r]

/-- A record read from a table has its fields set in their order, whatever the order of the
entries. -/
theorem foldlM_setByName? {fields : List (Field σ)} (hnames : (fields.map Field.name).Nodup)
    (hcommute : fields.Pairwise Field.Commute) {es : Entries} (hes : (es.map Prod.fst).Nodup)
    (r : σ) :
    es.foldlM (setByName? fields) r
      = if OthersReadable fields es then setFields? fields es r else none := by
  induction es generalizing r with
  | nil =>
      have hreadable : OthersReadable fields [] := nofun
      rw [if_pos hreadable, setFields?_nil]
      rfl
  | cons e es ih =>
      rw [List.map_cons, List.nodup_cons] at hes
      have hrest (r : σ) := ih hes.2 r
      rw [List.foldlM_cons, Option.bind_eq_bind]
      cases hfind : fields.find? (·.name == e.1) with
      | none =>
          have hname : e.1 ∉ fields.map Field.name := by
            intro hmem
            obtain ⟨f, hf, hname⟩ := List.mem_map.mp hmem
            exact List.find?_eq_none.mp hfind f hf (beq_iff_eq.mpr hname)
          have hstep : setByName? fields r e = if e.2.isReadable then some r else none := by
            rw [setByName?, hfind]
          rw [hstep, setFields?_of_not_mem hname]
          by_cases hreadable : e.2.isReadable = true
          · simp [othersReadable_cons, hreadable, hrest]
          · simp [othersReadable_cons, hreadable, hname]
      | some f =>
          have hname : f.name = e.1 := by simpa using List.find?_some hfind
          have hf : f ∈ fields := List.mem_of_find?_eq_some hfind
          have hmem : e.1 ∈ fields.map Field.name := hname ▸ List.mem_map_of_mem hf
          have hstep : setByName? fields r e = f.set? e.2 r := by
            rw [setByName?, hfind]
          have hnew : Entries.get? es f.name = none :=
            Entries.get?_eq_none_of_not_mem (hname ▸ hes.1)
          have hset : setFields? fields (e :: es) r
              = (f.set? e.2 r).bind (setFields? fields es) := by
            rw [← setFields?_of_mem hnames hcommute hf e.2 hnew, hname]
          rw [hstep, hset]
          by_cases hreadable : OthersReadable fields es
          · simp [othersReadable_cons, hreadable, hmem, hrest]
          · simp [othersReadable_cons, hreadable, hrest]

end Fields

/-! ### Sizes -/

/-- An integer is a size if it fits 32 bits. -/
theorem pixelsOf?_integer {i : Toml.IntegerLiteral} {n : Int} (h : i.value? = some n) :
    pixelsOf? (.integer i)
      = if 0 ≤ n ∧ n ≤ 4294967295 then some (UInt32.ofNat n.toNat) else none := by
  have hsize : (0 ≤ n ∧ n < UInt32.size) ↔ (0 ≤ n ∧ n ≤ 4294967295) := by
    have hvalue : (UInt32.size : Int) = 4294967296 := rfl
    omega
  rw [pixelsOf?, h, Option.bind_some]
  simp only [hsize]

/-! ### The fields of the settings commute -/

theorem Field.Commute.of_map {σ α β : Type} {name name' : Text} {read : Value → Option α}
    {read' : Value → Option β} {put : α → σ → σ} {put' : β → σ → σ}
    (h : ∀ a b r, put' b (put a r) = put a (put' b r)) :
    Field.Commute ⟨name, fun v r => (read v).map fun a => put a r⟩
      ⟨name', fun v r => (read' v).map fun b => put' b r⟩ := by
  intro v w r
  cases hv : read v <;> cases hw : read' w <;> simp [hv, hw, h]

theorem DocumentSettings.names_nodup : (fields.map Field.name).Nodup := by decide

theorem Styles.names_nodup : (fields.map Field.name).Nodup := by decide

theorem Settings.names_nodup : (fields.map Field.name).Nodup := by decide

theorem DocumentSettings.fields_commute : fields.Pairwise Field.Commute := by
  simp only [fields, List.pairwise_cons, List.forall_mem_cons, List.not_mem_nil, false_implies,
    implies_true, and_true, List.Pairwise.nil]
  refine ⟨⟨?_, ?_, ?_⟩, ⟨?_, ?_⟩, ?_⟩ <;> exact .of_map fun _ _ _ => rfl

theorem Styles.fields_commute : fields.Pairwise Field.Commute := by
  simp only [fields, List.pairwise_cons, List.forall_mem_cons, List.not_mem_nil, false_implies,
    implies_true, and_true, List.Pairwise.nil]
  refine ⟨⟨?_, ?_, ?_, ?_⟩, ⟨?_, ?_, ?_⟩, ⟨?_, ?_⟩, ?_⟩ <;> exact .of_map fun _ _ _ => rfl

theorem Settings.fields_commute : fields.Pairwise Field.Commute := by
  simp only [fields, List.pairwise_cons, List.forall_mem_cons, List.not_mem_nil, false_implies,
    implies_true, and_true, List.Pairwise.nil]
  intro v w s
  cases hv : readRecord? DocumentSettings.fields s.document v <;>
    cases hw : readRecord? Styles.fields s.styles w <;> simp [hv, hw]

end MeetingMail
