import MeetingMail.Toml.Value

/-!
Tables and what may be added to them.

* `Entries.assign?` sets the value of a key; a dotted key makes the tables on its way.
* `Entries.openTable?` and `Entries.openRow?` put the lines under a header into the table that the
  header names.
* All three refuse to set a key twice and to reopen a table that is already complete.
-/

namespace MeetingMail.Toml

/-- A key and its value, as one line of a table sets it. -/
structure Assignment where
  path : List Text
  value : Value
  deriving Repr

namespace Entries

def get? (es : Entries) (k : Text) : Option Value := es.lookup k

/-- The entries with a key set to a value: in its place if the key is there, else at the end. -/
def put (k : Text) (v : Value) : Entries → Entries
  | [] => [(k, v)]
  | (k', v') :: es => if k = k' then (k, v) :: es else (k', v') :: put k v es

theorem get?_cons (k : Text) (e : Text × Value) (es : Entries) :
    get? (e :: es) k = if k = e.1 then some e.2 else get? es k := by
  obtain ⟨k', v⟩ := e
  by_cases h : k = k'
  · simp [get?, h]
  · simp [get?, List.lookup_cons, beq_eq_false_iff_ne.mpr h, h]

@[simp] theorem get?_put_self (k : Text) (v : Value) (es : Entries) :
    (es.put k v).get? k = some v := by
  induction es with
  | nil => simp [put, get?]
  | cons e es ih => by_cases h : k = e.1 <;> simp [put, get?_cons, h, ih]

theorem get?_put_of_ne {k k' : Text} (h : k' ≠ k) (v : Value) (es : Entries) :
    (es.put k v).get? k' = es.get? k' := by
  induction es with
  | nil => simp [put, get?_cons, h]
  | cons e es ih => by_cases he : k = e.1 <;> simp_all [put, get?_cons]

/-- A new key is put at the end. -/
theorem put_of_get?_eq_none {k : Text} {v : Value} {es : Entries}
    (h : es.get? k = none) : es.put k v = es ++ [(k, v)] := by
  induction es with
  | nil => rfl
  | cons e es ih =>
      rw [get?_cons] at h
      split at h
      · cases h
      · rename_i hne
        rw [put, if_neg hne, ih h]
        rfl

theorem get?_eq_none_of_not_mem {k : Text} {es : Entries} (h : k ∉ es.map Prod.fst) :
    es.get? k = none := by
  induction es with
  | nil => rfl
  | cons e es ih =>
      rw [List.map_cons, List.mem_cons, not_or] at h
      rw [get?_cons, if_neg h.1, ih h.2]

/-! ### Keys -/

/-- Changes the last item of an array of tables, if that item is a table. -/
def changeLastTable? (change : Entries → Option Entries) : List Value → Option (List Value)
  | [] => none
  | [.table origin sub] => (change sub).map fun sub => [.table origin sub]
  | v :: vs => (changeLastTable? change vs).map (v :: ·)

/-- Sets the value of a key that is not set yet. A dotted key goes through tables that no header
and no braces have made, and through the last table of each array of tables. Its last part goes
into a table that dotted keys have made. -/
def assign? (value : Value) : List Text → Entries → Option Entries
  | [], _ => none
  | [k], es => match es.get? k with
      | none => some (es.put k value)
      | some _ => none
  | k :: path, es => match es.get? k with
      | none => (assign? value path []).map fun sub => es.put k (.table .dotted sub)
      | some (.table .dotted sub) =>
          (assign? value path sub).map fun sub => es.put k (.table .dotted sub)
      | some (.table .implied sub) =>
          if path.length = 1 then none
          else (assign? value path sub).map fun sub => es.put k (.table .implied sub)
      | some (.array true items) =>
          if path.length = 1 then none
          else (changeLastTable? (assign? value path) items).map fun items =>
            es.put k (.array true items)
      | some _ => none

def assignAll? (body : List Assignment) (es : Entries) : Option Entries :=
  body.foldlM (fun es a => assign? a.value a.path es) es

/-! ### Headers -/

/-- Changes the value that the path of a header names. The way to it goes through tables that are
not inline, and through the last table of each array of tables. -/
def changeAt? (change : Option Value → Option Value) : List Text → Entries → Option Entries
  | [], _ => none
  | [k], es => (change (es.get? k)).map fun v => es.put k v
  | k :: path, es => match es.get? k with
      | none => (changeAt? change path []).map fun sub => es.put k (.table .implied sub)
      | some (.table .inline _) => none
      | some (.table origin sub) =>
          (changeAt? change path sub).map fun sub => es.put k (.table origin sub)
      | some (.array true items) =>
          (changeLastTable? (changeAt? change path) items).map fun items =>
            es.put k (.array true items)
      | some _ => none

/-- Puts the lines under a header in single brackets into the table that it names, which must be
new or known only from longer headers. -/
def openTable? (path : List Text) (body : List Assignment) : Entries → Option Entries :=
  changeAt? (fun
    | none => (assignAll? body []).map (.table .header)
    | some (.table .implied sub) => (assignAll? body sub).map (.table .header)
    | some _ => none) path

/-- Puts the lines under a header in double brackets into a new table at the end of the array of
tables that it names. -/
def openRow? (path : List Text) (body : List Assignment) : Entries → Option Entries :=
  changeAt? (fun
    | none => (assignAll? body []).map fun row => .array true [.table .header row]
    | some (.array true items) =>
        (assignAll? body []).map fun row => .array true (items ++ [.table .header row])
    | some _ => none) path

end Entries

end MeetingMail.Toml
