import MeetingMail.Proofs.Toml.Statements

/-!
What one more line makes of a document.

* `IsEdit` holds of a change to a table that looks at one key and sets this key. Every line with a
  key and every header makes such a change.
* `Inserts` relates two tables of which the second has one more entry. `respects_foldlM`: an entry
  under a key that no change touches stays beside all that they do.
* `HasMore` says the same of an entry within the table of a header.
* `parse?_insert_line` and `parse?_insert_top`: a document with one more line in a table, or in
  front of all tables, is read as the same entries with one more.
-/

namespace MeetingMail.Toml

open Entries

/-! ### Changes under one key -/

/-- Holds if two tables have both been refused, or have got the same value under a key. -/
def SameEdit (k : Text) (es es' : Entries) (r r' : Option Entries) : Prop :=
  (r = none ∧ r' = none) ∨ ∃ v, r = some (es.put k v) ∧ r' = some (es'.put k v)

/-- A change to a table that sets one key, to what depends on the value of this key alone. -/
def IsEdit (k : Text) (change : Entries → Option Entries) : Prop :=
  ∀ es es' : Entries, es.get? k = es'.get? k → SameEdit k es es' (change es) (change es')

theorem sameEdit_none (k : Text) (es es' : Entries) : SameEdit k es es' none none :=
  .inl ⟨rfl, rfl⟩

theorem sameEdit_map {α : Type} (k : Text) (es es' : Entries) (o : Option α) (value : α → Value) :
    SameEdit k es es' (o.map fun a => es.put k (value a)) (o.map fun a => es'.put k (value a)) := by
  cases o with
  | none => exact sameEdit_none k es es'
  | some a => exact .inr ⟨value a, rfl, rfl⟩

theorem isEdit_assign? (v : Value) (k : Text) (path : List Text) :
    IsEdit k (assign? v (k :: path)) := by
  intro es es' h
  cases path with
  | nil =>
      rw [assign?, assign?, h]
      cases es'.get? k with
      | none => exact .inr ⟨v, rfl, rfl⟩
      | some _ => exact sameEdit_none k es es'
  | cons k' path =>
      have hpath : k' :: path = [] → False := nofun
      rw [assign?.eq_3 v es k _ hpath, assign?.eq_3 v es' k _ hpath, h]
      generalize es'.get? k = old
      split
      · exact sameEdit_map k es es' _ (.table .dotted)
      · exact sameEdit_map k es es' _ (.table .dotted)
      · split
        · exact sameEdit_none k es es'
        · exact sameEdit_map k es es' _ (.table .implied)
      · split
        · exact sameEdit_none k es es'
        · exact sameEdit_map k es es' _ (.array true)
      · exact sameEdit_none k es es'

theorem isEdit_changeAt? (change : Option Value → Option Value) (k : Text) (path : List Text) :
    IsEdit k (changeAt? change (k :: path)) := by
  intro es es' h
  cases path with
  | nil =>
      rw [changeAt?, changeAt?, h]
      exact sameEdit_map k es es' _ id
  | cons k' path =>
      have hpath : k' :: path = [] → False := nofun
      rw [changeAt?.eq_3 change es k _ hpath, changeAt?.eq_3 change es' k _ hpath, h]
      generalize es'.get? k = old
      split
      · exact sameEdit_map k es es' _ (.table .implied)
      · exact sameEdit_none k es es'
      · exact sameEdit_map k es es' _ (.table _)
      · exact sameEdit_map k es es' _ (.array true)
      · exact sameEdit_none k es es'

/-- Every line with a key makes a change under one key. A path without parts changes nothing. -/
theorem exists_isEdit_assign? (v : Value) (path : List Text) : ∃ k, IsEdit k (assign? v path) := by
  cases path with
  | nil => exact ⟨[], fun es es' _ => by rw [assign?, assign?]; exact sameEdit_none [] es es'⟩
  | cons k path => exact ⟨k, isEdit_assign? v k path⟩

theorem exists_isEdit_changeAt? (change : Option Value → Option Value) (path : List Text) :
    ∃ k, IsEdit k (changeAt? change path) := by
  cases path with
  | nil => exact ⟨[], fun es es' _ => by rw [changeAt?, changeAt?]; exact sameEdit_none [] es es'⟩
  | cons k path => exact ⟨k, isEdit_changeAt? change k path⟩

/-- Every header, with the lines under it, makes a change under one key. -/
theorem exists_isEdit_openSection? (s : Header × List Assignment) :
    ∃ k, IsEdit k fun es => es.openSection? s := by
  obtain ⟨path | path, body⟩ := s
  · exact exists_isEdit_changeAt? _ path
  · exact exists_isEdit_changeAt? _ path

namespace IsEdit

variable {k : Text} {change : Entries → Option Entries} {es r : Entries}

theorem exists_put (h : IsEdit k change) (hr : change es = some r) : ∃ v, r = es.put k v := by
  obtain ⟨hnone, -⟩ | ⟨v, hput, -⟩ := h es es rfl
  · rw [hr] at hnone
    cases hnone
  · exact ⟨v, Option.some.inj (hr.symm.trans hput)⟩

theorem get?_of_ne (h : IsEdit k change) (hr : change es = some r) {j : Text} (hj : j ≠ k) :
    r.get? j = es.get? j := by
  obtain ⟨v, rfl⟩ := h.exists_put hr
  exact get?_put_of_ne hj v es

/-- What has no value afterwards has not been touched. -/
theorem ne_of_get?_eq_none (h : IsEdit k change) (hr : change es = some r) {j : Text}
    (hj : r.get? j = none) : j ≠ k := by
  rintro rfl
  obtain ⟨v, rfl⟩ := h.exists_put hr
  rw [get?_put_self] at hj
  cases hj

end IsEdit

/-! ### No key twice -/

theorem keys_put (k : Text) (v : Value) (es : Entries) :
    (es.put k v).map Prod.fst
      = if k ∈ es.map Prod.fst then es.map Prod.fst else es.map Prod.fst ++ [k] := by
  induction es with
  | nil => rfl
  | cons e es ih =>
      by_cases hk : k = e.1
      · simp [put, hk]
      · rw [put, if_neg hk, List.map_cons, ih]
        by_cases hmem : k ∈ es.map Prod.fst
        · simp only [List.map_cons, List.mem_cons, hk, hmem, or_true, if_true]
        · simp only [List.map_cons, List.mem_cons, hk, hmem, or_self, if_false, List.cons_append]

theorem nodup_put {es : Entries} (h : (es.map Prod.fst).Nodup) (k : Text) (v : Value) :
    ((es.put k v).map Prod.fst).Nodup := by
  rw [keys_put]
  split
  · exact h
  · rename_i hk
    refine List.nodup_append.mpr ⟨h, by simp, fun a ha b hb heq => hk ?_⟩
    rwa [← List.mem_singleton.mp hb, ← heq]

theorem nodup_foldlM {α : Type} {step : Entries → α → Option Entries}
    (hstep : ∀ a, ∃ k, IsEdit k (step · a)) {as : List α} {es r : Entries}
    (hr : as.foldlM step es = some r) (h : (es.map Prod.fst).Nodup) : (r.map Prod.fst).Nodup := by
  induction as generalizing es with
  | nil => rwa [← Option.some.inj hr]
  | cons a as ih =>
      rw [List.foldlM_cons, Option.bind_eq_bind, Option.bind_eq_some_iff] at hr
      obtain ⟨m, hm, hr⟩ := hr
      obtain ⟨k, hedit⟩ := hstep a
      obtain ⟨v, rfl⟩ := hedit.exists_put hm
      exact ih hr (nodup_put h k v)

/-- A document has no key twice. -/
theorem nodup_parse? {t : Text} {es : Entries} (h : parse? t = some es) :
    (es.map Prod.fst).Nodup := by
  rw [parse?, Option.bind_eq_some_iff] at h
  obtain ⟨ss, -, h⟩ := h
  rw [ofStatements?, Option.bind_eq_some_iff] at h
  obtain ⟨top, htop, h⟩ := h
  have hassign (a : Assignment) : ∃ k, IsEdit k fun es => assign? a.value a.path es :=
    exists_isEdit_assign? a.value a.path
  have htopKeys := nodup_foldlM hassign htop List.nodup_nil
  exact nodup_foldlM exists_isEdit_openSection? h htopKeys

/-! ### One more entry -/

/-- Two tables of which the second has one more entry, in any place. -/
inductive Inserts (e : Text × Value) : Entries → Entries → Prop where
  | here (es : Entries) : Inserts e es (e :: es)
  | there (a : Text × Value) {es es' : Entries} (h : Inserts e es es') :
      Inserts e (a :: es) (a :: es')

theorem inserts_concat (e : Text × Value) (es : Entries) : Inserts e es (es ++ [e]) := by
  induction es with
  | nil => exact .here []
  | cons a es ih => exact .there a ih

namespace Inserts

variable {e : Text × Value} {es es' : Entries}

theorem get?_of_ne (h : Inserts e es es') {k : Text} (hk : k ≠ e.1) : es'.get? k = es.get? k := by
  induction h with
  | here es => rw [get?_cons, if_neg hk]
  | there a _ ih => rw [get?_cons, get?_cons, ih]

theorem put (h : Inserts e es es') {k : Text} (hk : k ≠ e.1) (v : Value) :
    Inserts e (es.put k v) (es'.put k v) := by
  induction h with
  | here es =>
      rw [Entries.put.eq_def k v (e :: es)]
      dsimp only
      rw [if_neg hk]
      exact .here _
  | there a h ih =>
      by_cases ha : k = a.1
      · simp only [Entries.put, if_pos ha]
        exact .there _ h
      · simp only [Entries.put, if_neg ha]
        exact .there _ ih

end Inserts

/-- A change that leaves room for an entry: if there is none under its key in the end, then there
was none before, and it may stand beside all that is changed. -/
def Respects (e : Text × Value) (change : Entries → Option Entries) : Prop :=
  ∀ es r, change es = some r → r.get? e.1 = none → es.get? e.1 = none ∧
    ∀ es', Inserts e es es' → ∃ r', change es' = some r' ∧ Inserts e r r'

theorem IsEdit.respects {k : Text} {change : Entries → Option Entries} (h : IsEdit k change)
    (e : Text × Value) : Respects e change := by
  intro es r hr hnone
  have hne := h.ne_of_get?_eq_none hr hnone
  refine ⟨(h.get?_of_ne hr hne).symm.trans hnone, fun es' hinserts => ?_⟩
  obtain ⟨hfail, -⟩ | ⟨v, hput, hput'⟩ := h es es' (hinserts.get?_of_ne hne.symm).symm
  · rw [hr] at hfail
    cases hfail
  · rw [Option.some.inj (hr.symm.trans hput)]
    exact ⟨_, hput', hinserts.put hne.symm v⟩

theorem respects_foldlM {α : Type} {step : Entries → α → Option Entries} {e : Text × Value}
    (hstep : ∀ a, Respects e (step · a)) (as : List α) :
    Respects e fun es => as.foldlM step es := by
  intro es r hr hnone
  dsimp only at hr ⊢
  induction as generalizing es with
  | nil =>
      obtain rfl := Option.some.inj hr
      exact ⟨hnone, fun es' h => ⟨es', rfl, h⟩⟩
  | cons a as ih =>
      rw [List.foldlM_cons, Option.bind_eq_bind, Option.bind_eq_some_iff] at hr
      obtain ⟨m, hm, hr⟩ := hr
      obtain ⟨hnew, hrest⟩ := ih m hr
      obtain ⟨hold, hfirst⟩ := hstep a es m hm hnew
      refine ⟨hold, fun es' h => ?_⟩
      obtain ⟨m', hm', h⟩ := hfirst es' h
      obtain ⟨r', hr', h⟩ := hrest m' h
      have hstep' : step es' a = some m' := hm'
      refine ⟨r', ?_, h⟩
      rw [List.foldlM_cons, hstep', Option.bind_eq_bind, Option.bind_some, hr']

theorem respects_assignAll? (e : Text × Value) (body : List Assignment) :
    Respects e (assignAll? body) :=
  have hassign (a : Assignment) : Respects e fun es => assign? a.value a.path es :=
    (exists_isEdit_assign? a.value a.path).elim fun _ h => h.respects e
  respects_foldlM hassign body

theorem respects_openSections? (e : Text × Value) (more : List (Header × List Assignment)) :
    Respects e fun es => more.foldlM openSection? es :=
  respects_foldlM (fun s => (exists_isEdit_openSection? s).elim fun _ h => h.respects e) more

/-- One more line among others, with a key that they do not set. -/
theorem assignAll?_insert {body body' : List Assignment} {k : Text} {es r : Entries}
    (hr : assignAll? (body ++ body') es = some r) (hnew : r.get? k = none) (v : Value) :
    ∃ r', assignAll? (body ++ ⟨[k], v⟩ :: body') es = some r' ∧ Inserts (k, v) r r' := by
  rw [assignAll?, List.foldlM_append, Option.bind_eq_bind, Option.bind_eq_some_iff] at hr
  obtain ⟨m, hm, hr⟩ := hr
  obtain ⟨hnone, hrest⟩ := respects_assignAll? (k, v) body' m r hr hnew
  have hset : assign? v [k] m = some (m ++ [(k, v)]) := by
    rw [assign?, hnone]
    exact congrArg some (put_of_get?_eq_none hnone)
  obtain ⟨r', hr', hinserts⟩ := hrest _ (inserts_concat (k, v) m)
  refine ⟨r', ?_, hinserts⟩
  rw [assignAll?, List.foldlM_append, hm, Option.bind_eq_bind, Option.bind_some, List.foldlM_cons,
    hset]
  exact hr'

/-! ### One more entry in a table -/

/-- The entries of the table under a name. There are none if no table has the name. -/
def Entries.tableAt (es : Entries) (name : Text) : Entries :=
  match es.get? name with
  | some (.table _ sub) => sub
  | _ => []

theorem Entries.tableAt_of_get? {es sub : Entries} {name : Text} {origin : Origin}
    (h : es.get? name = some (.table origin sub)) : es.tableAt name = sub := by
  rw [tableAt, h]

/-- Two documents of which the second has one more entry in the table of a header. -/
structure HasMore (name : Text) (e : Text × Value) (es es' : Entries) : Prop where
  others : ∀ k, k ≠ name → es'.get? k = es.get? k
  table : ∃ sub sub', es.get? name = some (.table .header sub) ∧
    es'.get? name = some (.table .header sub') ∧ Inserts e sub sub'

/-- A change that leaves room for an entry in the table of a header, and leaves the table there. -/
def RespectsIn (name : Text) (e : Text × Value) (change : Entries → Option Entries) : Prop :=
  ∀ es sub r : Entries, es.get? name = some (.table .header sub) → change es = some r →
    ∃ sub₂ : Entries, r.get? name = some (.table .header sub₂) ∧
      (sub₂.get? e.1 = none → sub.get? e.1 = none ∧
        ∀ es', HasMore name e es es' → ∃ r', change es' = some r' ∧ HasMore name e r r')

theorem IsEdit.respectsIn {k name : Text} {change : Entries → Option Entries}
    (h : IsEdit k change) (hk : name ≠ k) (e : Text × Value) : RespectsIn name e change := by
  intro es sub r hsub hr
  refine ⟨sub, (h.get?_of_ne hr hk).trans hsub, fun hnew => ⟨hnew, fun es' hmore => ?_⟩⟩
  obtain ⟨hfail, -⟩ | ⟨v, hput, hput'⟩ := h es es' (hmore.others k hk.symm).symm
  · rw [hr] at hfail
    cases hfail
  · rw [Option.some.inj (hr.symm.trans hput)]
    obtain ⟨sub, sub', hsub, hsub', hinserts⟩ := hmore.table
    refine ⟨_, hput', fun j hj => ?_, sub, sub', ?_, ?_, hinserts⟩
    · by_cases hjk : j = k
      · rw [hjk, get?_put_self, get?_put_self]
      · rw [get?_put_of_ne hjk, get?_put_of_ne hjk, hmore.others j hj]
    · rw [get?_put_of_ne hk, hsub]
    · rw [get?_put_of_ne hk, hsub']

/-- A change within the table of a header. -/
theorem Respects.respectsIn {name : Text} {e : Text × Value}
    {inner change : Entries → Option Entries} (h : Respects e inner)
    (hchange : ∀ es sub, es.get? name = some (.table .header sub) →
      change es = (inner sub).map fun sub => es.put name (.table .header sub)) :
    RespectsIn name e change := by
  intro es sub r hsub hr
  rw [hchange es sub hsub, Option.map_eq_some_iff] at hr
  obtain ⟨sub₂, hinner, rfl⟩ := hr
  refine ⟨sub₂, get?_put_self .., fun hnew => ?_⟩
  obtain ⟨hold, hrest⟩ := h sub sub₂ hinner hnew
  refine ⟨hold, fun es' hmore => ?_⟩
  obtain ⟨sub₁, sub', hsub₁, hsub', hinserts⟩ := hmore.table
  obtain rfl : sub₁ = sub := by
    have heq := hsub₁.symm.trans hsub
    simpa using heq
  obtain ⟨sub₂', hinner', hinserts⟩ := hrest sub' hinserts
  refine ⟨es'.put name (.table .header sub₂'), ?_, fun j hj => ?_, sub₂, sub₂', ?_, ?_, hinserts⟩
  · rw [hchange es' sub' hsub', hinner', Option.map_some]
  · rw [get?_put_of_ne hj, get?_put_of_ne hj, hmore.others j hj]
  · exact get?_put_self ..
  · exact get?_put_self ..

/-- A header on the way through the table of another header goes on within it. -/
theorem changeAt?_through {change : Option Value → Option Value} {name k : Text}
    {path : List Text} {es sub : Entries} (h : es.get? name = some (.table .header sub)) :
    changeAt? change (name :: k :: path) es
      = (changeAt? change (k :: path) sub).map fun sub => es.put name (.table .header sub) := by
  rw [changeAt?.eq_3 change es name (k :: path) nofun, h]

/-- No header opens the table of another header again. Below it, headers change what it holds. -/
theorem respectsIn_changeAt? (name : Text) (e : Text × Value) {change : Option Value → Option Value}
    (hclosed : ∀ sub, change (some (.table .header sub)) = none) (path : List Text) :
    RespectsIn name e (changeAt? change path) := by
  rcases path with _ | ⟨k, path⟩
  · intro es sub r _ hr
    rw [changeAt?] at hr
    cases hr
  by_cases hk : name = k
  · subst hk
    cases path with
    | nil =>
        have hnone : Respects e fun _ => none := fun _ _ h => nomatch h
        refine hnone.respectsIn fun es sub hsub => ?_
        rw [changeAt?, hsub, hclosed]
        rfl
    | cons k path =>
        exact ((isEdit_changeAt? change k path).respects e).respectsIn fun es sub hsub =>
          changeAt?_through hsub
  · exact (isEdit_changeAt? change k path).respectsIn hk e

theorem respectsIn_openSections? (name : Text) (e : Text × Value)
    (more : List (Header × List Assignment)) :
    RespectsIn name e fun es => more.foldlM openSection? es := by
  intro es sub r hsub hr
  dsimp only at hr ⊢
  induction more generalizing es sub with
  | nil =>
      obtain rfl := Option.some.inj hr
      exact ⟨sub, hsub, fun hnew => ⟨hnew, fun es' h => ⟨es', rfl, h⟩⟩⟩
  | cons s more ih =>
      have hstep : RespectsIn name e fun es => es.openSection? s := by
        obtain ⟨path | path, body⟩ := s
        · exact respectsIn_changeAt? name e (fun _ => rfl) path
        · exact respectsIn_changeAt? name e (fun _ => rfl) path
      rw [List.foldlM_cons, Option.bind_eq_bind, Option.bind_eq_some_iff] at hr
      obtain ⟨m, hm, hr⟩ := hr
      obtain ⟨sub₁, hsub₁, hfirst⟩ := hstep es sub m hsub hm
      obtain ⟨sub₂, hsub₂, hrest⟩ := ih m sub₁ hsub₁ hr
      refine ⟨sub₂, hsub₂, fun hnew => ?_⟩
      obtain ⟨hnew, hrest⟩ := hrest hnew
      obtain ⟨hold, hfirst⟩ := hfirst hnew
      refine ⟨hold, fun es' h => ?_⟩
      obtain ⟨m', hm', h⟩ := hfirst es' h
      obtain ⟨r', hr', h⟩ := hrest m' h
      have hstep' : es'.openSection? s = some m' := hm'
      refine ⟨r', ?_, h⟩
      rw [List.foldlM_cons, hstep', Option.bind_eq_bind, Option.bind_some, hr']

/-- One more line under a header, with a key that its other lines do not set. -/
theorem openSection?_insert {name k : Text} {body body' : List Assignment} {es r : Entries}
    (hr : es.openSection? (.table [name], body ++ body') = some r) :
    ∃ sub : Entries, r.get? name = some (.table .header sub) ∧ (sub.get? k = none → ∀ v,
      ∃ r', es.openSection? (.table [name], body ++ ⟨[k], v⟩ :: body') = some r' ∧
        HasMore name (k, v) r r') := by
  -- The table is new, or known only from longer headers.
  obtain ⟨old, hopen⟩ : ∃ old, ∀ body, es.openSection? (.table [name], body)
      = (assignAll? body old).map fun sub => es.put name (.table .header sub) := by
    unfold openSection? openTable? changeAt? at hr ⊢
    obtain ⟨v, hchange, -⟩ := Option.map_eq_some_iff.mp hr
    split at hchange
    · rename_i hname
      exact ⟨[], fun body => by simp only [hname, Option.map_map]; rfl⟩
    · rename_i sub hname
      exact ⟨sub, fun body => by simp only [hname, Option.map_map]; rfl⟩
    · cases hchange
  rw [hopen, Option.map_eq_some_iff] at hr
  obtain ⟨sub, hsub, rfl⟩ := hr
  refine ⟨sub, get?_put_self .., fun hnew v => ?_⟩
  obtain ⟨sub', hsub', hinserts⟩ := assignAll?_insert hsub hnew v
  refine ⟨es.put name (.table .header sub'), by rw [hopen, hsub', Option.map_some],
    fun j hj => ?_, sub, sub', get?_put_self .., get?_put_self .., hinserts⟩
  rw [get?_put_of_ne hj, get?_put_of_ne hj]

/-! ### One more line in a document -/

section Lines

variable {front back : List Text} {ss ss' : List (List Statement)} {l k : Text} {v : Value}
  (hfront : List.Forall₂ IsLine front ss) (hback : List.Forall₂ IsLine back ss')
  (hline : IsLine l [.assignment ⟨[k], v⟩]) {es : Entries}
  (hes : parse? (Text.unlines (front ++ back)) = some es)
include hfront hback hline hes

/-- One more line under a header, with a key that the table does not have. -/
theorem parse?_insert_line {name : Text} {before : List Statement} {body : List Assignment}
    (hplace : ss.flatten = before ++ .header (.table [name]) :: body.map .assignment)
    (hnew : (es.tableAt name).get? k = none) :
    ∃ es', parse? (Text.unlines (front ++ l :: back)) = some es' ∧ HasMore name (k, v) es es' := by
  rw [parse?_unlines (List.rel_append hfront hback), List.flatten_append, hplace,
    List.append_assoc, List.cons_append, ofStatements?_header, sections_assignments,
    Option.bind_eq_some_iff] at hes
  obtain ⟨es₁, hes₁, hes⟩ := hes
  obtain ⟨es₂, hes₂, hes⟩ := Option.bind_eq_some_iff.mp hes
  obtain ⟨sub₂, hsub₂, hinsert⟩ := openSection?_insert (k := k) hes₂
  obtain ⟨sub, hsub, hrest⟩ := respectsIn_openSections? name (k, v) _ es₂ sub₂ es hsub₂ hes
  rw [tableAt_of_get? hsub] at hnew
  obtain ⟨hnew, hrest⟩ := hrest hnew
  obtain ⟨es₂', hes₂', hmore⟩ := hinsert hnew v
  obtain ⟨es', hes', hmore⟩ := hrest es₂' hmore
  refine ⟨es', ?_, hmore⟩
  have hstatements : (ss ++ [.assignment ⟨[k], v⟩] :: ss').flatten
      = before ++ .header (.table [name]) ::
        ((body ++ [Assignment.mk [k] v]).map .assignment ++ ss'.flatten) := by
    simp [hplace]
  rw [parse?_unlines (List.rel_append hfront (.cons hline hback)), hstatements,
    ofStatements?_header, hes₁, Option.bind_some, sections_assignments, List.append_assoc,
    List.singleton_append, hes₂', Option.bind_some]
  exact hes'

/-- One more line in front of all headers, with a key that the document does not have. -/
theorem parse?_insert_top {body : List Assignment} (hplace : ss.flatten = body.map .assignment)
    (hnew : es.get? k = none) :
    ∃ es', parse? (Text.unlines (front ++ l :: back)) = some es' ∧ Inserts (k, v) es es' := by
  rw [parse?_unlines (List.rel_append hfront hback), List.flatten_append, hplace,
    ofStatements?_assignments, Option.bind_eq_some_iff] at hes
  obtain ⟨es₁, hes₁, hes⟩ := hes
  obtain ⟨hnew, hrest⟩ := respects_openSections? (k, v) _ es₁ es hes hnew
  obtain ⟨es₁', hes₁', hinserts⟩ := assignAll?_insert hes₁ hnew v
  obtain ⟨es', hes', hinserts⟩ := hrest es₁' hinserts
  refine ⟨es', ?_, hinserts⟩
  have hstatements : (ss ++ [.assignment ⟨[k], v⟩] :: ss').flatten
      = (body ++ [Assignment.mk [k] v]).map .assignment ++ ss'.flatten := by
    simp [hplace]
  rw [parse?_unlines (List.rel_append hfront (.cons hline hback)), hstatements,
    ofStatements?_assignments, List.append_assoc, List.singleton_append, hes₁', Option.bind_some]
  exact hes'

end Lines

end MeetingMail.Toml
