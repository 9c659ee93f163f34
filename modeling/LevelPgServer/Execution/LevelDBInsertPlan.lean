import LevelPgServer.Execution.FullScan

namespace LevelPgServer

open DataRow KeyOrder ExceptRules ThreeWay

/-- The constructor pushes the types of the key columns in the order of the columns. -/
structure LevelDBInsertPlan where
  table : TableInfo
  keyTypes : List DBDataType
  valueTypes : List DBDataType

namespace LevelDBInsertPlan

/-- What `next` leaves behind for the next call and for `end`. -/
structure State where
  keyResults : List ExecutionResult
  valueResults : List ExecutionResult
  batch : List Entry := []
  insertRows : Nat := 0

def create (t : TableInfo) : LevelDBInsertPlan where
  table := t
  keyTypes := (t.columns.filter (fun c => c.keyIndex.isSome)).map DBColumnInfo.type
  valueTypes := (t.columns.filter (fun c => c.keyIndex.isNone)).map DBColumnInfo.type

def initial (plan : LevelDBInsertPlan) : State where
  keyResults := List.replicate plan.keyTypes.length .null
  valueResults := List.replicate plan.valueTypes.length .null

def storeColumn (c : DBColumnInfo) (r : ExecutionResult) (s : State) : Fallible State :=
  match c.keyIndex, c.valueIndex with
  | some k, _ => .ok { s with keyResults := s.keyResults.set k r }
  | none, some v => .ok { s with valueResults := s.valueResults.set v r }
  | none, none => .error .undefined

def storeColumns : List DBColumnInfo → List ExecutionResult → State → Fallible State
  | c :: cs, r :: rs, s => do
    let s ← storeColumn c r s
    storeColumns cs rs s
  | [], _, s => .ok s
  | _ :: _, [], _ => .error .undefined

variable (conv : Conversions)

def next (plan : LevelDBInsertPlan) (row : List ExecutionResult) (s : State) : Fallible State := do
  let s ← storeColumns plan.table.columns row s
  let key ← copyRow conv plan.keyTypes s.keyResults
  let value ← copyRow conv plan.valueTypes s.valueResults
  return { s with batch := s.batch ++ [(key, value)], insertRows := s.insertRows + 1 }

def nextAll (plan : LevelDBInsertPlan) : List (List ExecutionResult) → State → Fallible State
  | [], s => .ok s
  | row :: rows, s => do
    let s ← plan.next conv row s
    nextAll plan rows s

/-- `begin`, all calls of `next` and `end`: the table afterwards and the number of rows. The
batch is written only when the child has come to its end. -/
def run (plan : LevelDBInsertPlan) (resultColumns : Nat) (child : Run (List ExecutionResult)) (db : LevelDB) :
    Fallible (LevelDB × Nat) :=
  if resultColumns ≠ plan.table.getColumnCount then
    throwExecution "the numbers of insert columns and values are not matched"
  else do
    let s ← plan.nextAll conv child.rows plan.initial
    match child.fault with
    | some f => .error f
    | none => return (LevelDB.commit conv plan.table s.batch db, s.insertRows)

end LevelDBInsertPlan

namespace TableInfo

def keyRow (t : TableInfo) (row : List ExecutionResult) : List ExecutionResult := t.keys.map (fun i => row.getD i .null)

def valueRow (t : TableInfo) (row : List ExecutionResult) : List ExecutionResult :=
  t.values.map (fun i => row.getD i .null)

def lastWith (t : TableInfo) (rows : List (List ExecutionResult)) (key : List Rank) : Option (List ExecutionResult) :=
  rows.findRev? (fun row => ranks (t.keyRow row) == key)

theorem lastWith_cons (t : TableInfo) (row : List ExecutionResult) (rows : List (List ExecutionResult))
    (key : List Rank) : t.lastWith (row :: rows) key =
      (t.lastWith rows key).or (if ranks (t.keyRow row) = key then some row else none) := by
  simp [lastWith, List.findRev?_eq_find?_reverse, List.find?_append, List.find?_singleton]

end TableInfo

namespace DataRow

/-- The values that a handler's `checkValue` lets through, if they are in range. -/
def accepts : DBDataTypeHandler → ExecutionResult → Bool
  | .int _, .int _ | .float _, .double _ | .string, .string _ => true
  | _, _ => false

/-- A single-precision column rounds the number it stores. -/
def unrounded : DBDataTypeHandler → ExecutionResult → Bool
  | .float .float, .double d => d.narrow.widen == d
  | _, _ => true

theorem hasType_iff {h : DBDataTypeHandler} {v : ExecutionResult} :
    hasType h v = true ∧ v ≠ .maxString ↔ accepts h v = true ∧ unrounded h v = true := by
  cases h with
  | float u => cases u <;> cases v <;> simp [hasType, accepts, unrounded]
  | _ => cases v <;> simp [hasType, accepts, unrounded]

end DataRow

/-- A row whose values the column types admit, without NaN in a key column. -/
structure Accepted (t : TableInfo) (row : List ExecutionResult) : Prop where
  types : List.Forall₂ (fun c v => accepts (getHandler c.type) v = true) t.columns row
  noNaN : ∀ d, .double d ∈ t.keyRow row → d.isNaN = false

def FloatsReadBack (t : TableInfo) (row : List ExecutionResult) : Prop :=
  List.Forall₂ (fun c v => unrounded (getHandler c.type) v = true) t.columns row

/-- A row whose values the column types admit and do not round. -/
structure Admitted (t : TableInfo) (row : List ExecutionResult) : Prop where
  types : List.Forall₂ (fun c v => hasType (getHandler c.type) v = true ∧ v ≠ .maxString) t.columns row
  noNaN : ∀ d, .double d ∈ t.keyRow row → d.isNaN = false

/-- No string before the last key column or the last value column has the size that is read
back as another. -/
def SizesReadBack (t : TableInfo) (row : List ExecutionResult) : Prop :=
  Readable (t.keyRow row) ∧ Readable (t.valueRow row)

/-- What the rows of a table are after rows have been inserted: in key order, and under every
key the last inserted row with that key, or else the row that was there. -/
def Upserted (conv : Conversions) (t : TableInfo) (rows : List (List ExecutionResult)) (db db' : LevelDB) : Prop :=
  ∃ old new, LevelDBScanPlan.scanTable conv t db = .ok old ∧ LevelDBScanPlan.scanTable conv t db' = .ok new ∧
    new.Pairwise (fun a b => ranks (t.keyRow a) < ranks (t.keyRow b)) ∧
      ∀ row, row ∈ new ↔ t.lastWith rows (ranks (t.keyRow row)) = some row ∨
        (t.lastWith rows (ranks (t.keyRow row)) = none ∧ row ∈ old)

namespace LevelDBInsertPlan

variable {conv : Conversions} {t : TableInfo}

open Scatter

/-- The place of a value column among the values of a row. -/
def valuePlace (c : DBColumnInfo) : Option Nat := if c.keyIndex.isNone then c.valueIndex else none

theorem storeColumns_eq {cs : List DBColumnInfo} (hcs : ∀ c ∈ cs, c.keyIndex = none → c.valueIndex ≠ none)
    {row : List ExecutionResult} (hlen : row.length = cs.length) (s : State) :
    storeColumns cs row s = .ok { s with
      keyResults := scatter ((cs.zip row).map (fun p => (p.1.keyIndex, p.2))) s.keyResults
      valueResults := scatter ((cs.zip row).map (fun p => (valuePlace p.1, p.2))) s.valueResults } := by
  induction cs generalizing row s with
  | nil => cases row <;> simp [storeColumns, scatter]
  | cons c cs ih =>
    cases row with
    | nil => cases hlen
    | cons r row =>
      have hlen' : row.length = cs.length := by simpa using hlen
      have hcs' : ∀ c ∈ cs, c.keyIndex = none → c.valueIndex ≠ none := fun d hd => hcs d (by simp [hd])
      rw [storeColumns, storeColumn]
      cases hk : c.keyIndex with
      | some k => simp [ih hcs' hlen', scatter, valuePlace, hk]
      | none =>
        obtain ⟨v, hv⟩ := Option.ne_none_iff_exists'.mp (hcs c (by simp) hk)
        simp [ih hcs' hlen', scatter, valuePlace, hk, hv]

theorem scatter_row {place : DBColumnInfo → Option Nat} {places : List Nat}
    (hplace : ∀ (i : Nat) (c : DBColumnInfo), t.columns[i]? = some c → ∀ k, place c = some k ↔ places[k]? = some i)
    (hlt : ∀ i ∈ places, i < t.columns.length) {row : List ExecutionResult} (hlen : row.length = t.columns.length)
    {acc : List ExecutionResult} (hacc : acc.length = places.length) :
    scatter ((t.columns.zip row).map (fun p => (place p.1, p.2))) acc = places.map (fun i => row.getD i .null) := by
  refine scatter_eq (by simp [hacc]) (fun k a hk => ?_) (fun k a b hk hm => ?_)
  · rw [List.getElem?_map, Option.map_eq_some_iff] at hk
    obtain ⟨i, hi, rfl⟩ := hk
    have hil := hlt i (List.mem_of_getElem? hi)
    have hc := List.getElem?_eq_getElem hil
    refine List.mem_map.mpr ⟨(t.columns[i], row[i]), ?_, ?_⟩
    · exact List.mem_of_getElem? (i := i) (List.getElem?_zip_eq_some.mpr ⟨hc, List.getElem?_eq_getElem (by omega)⟩)
    · rw [(hplace i _ hc k).mpr hi, List.getD_eq_getElem?_getD, List.getElem?_eq_getElem (by omega), Option.getD_some]
  · rw [List.getElem?_map, Option.map_eq_some_iff] at hk
    obtain ⟨i, hi, rfl⟩ := hk
    obtain ⟨⟨c, r⟩, hcr, he⟩ := List.mem_map.mp hm
    obtain ⟨j, hj⟩ := List.mem_iff_getElem?.mp hcr
    obtain ⟨hcj, hrj⟩ := List.getElem?_zip_eq_some.mp hj
    obtain ⟨hck, rfl⟩ := Prod.mk.inj he
    obtain rfl : i = j := Option.some.inj (hi.symm.trans ((hplace j c hcj k).mp hck))
    rw [List.getD_eq_getElem?_getD, hrj]
    rfl

theorem storeColumns_row (hv : t.Valid) {row : List ExecutionResult} (hlen : row.length = t.columns.length) {s : State}
    (hk : s.keyResults.length = t.keys.length) (hval : s.valueResults.length = t.values.length) :
    storeColumns t.columns row s =
      .ok { s with keyResults := t.keyRow row, valueResults := t.valueRow row } := by
  have hcs : ∀ c ∈ t.columns, c.keyIndex = none → c.valueIndex ≠ none := by
    intro c hc hn
    obtain ⟨i, hi⟩ := List.mem_iff_getElem?.mp hc
    exact (hv.isValue i c hi).mp hn
  have hvalue : ∀ (i : Nat) (c : DBColumnInfo), t.columns[i]? = some c →
      ∀ k, valuePlace c = some k ↔ t.values[k]? = some i := by
    intro i c hc k
    rw [← hv.valueIndex i c hc k, valuePlace]
    cases hkey : c.keyIndex with
    | none => simp
    | some m =>
      have hn : c.valueIndex = none := by
        by_contra hn
        exact absurd ((hv.isValue i c hc).mpr hn) (by simp [hkey])
      simp [hn]
  rw [storeColumns_eq hcs hlen, scatter_row hv.keyIndex hv.keys_lt hlen hk, scatter_row hvalue hv.values_lt hlen hval]
  rfl

theorem length_keyTypes (hv : t.Valid) : (create t).keyTypes.length = t.keys.length := by
  have hvals := congrArg List.length hv.valueColumns
  have hcount := hv.count
  have hlen := hv.length_valueTypes
  have hsplit := List.length_eq_length_filter_add (l := t.columns) (fun c => c.keyIndex.isSome)
  simp only [TableInfo.valueTypes, List.length_map] at hlen
  simp only [create, List.length_map]
  have hnot : (t.columns.filter (fun c => !c.keyIndex.isSome)) = t.columns.filter (fun c => c.keyIndex.isNone) :=
    List.filter_congr fun c _ => by cases c.keyIndex <;> rfl
  rw [hnot] at hsplit
  omega

theorem valueTypes_eq (hv : t.Valid) : (create t).valueTypes = t.valueTypes := by
  rw [create, TableInfo.valueTypes, hv.valueColumns]

/-- The key and the value that `next` puts into the batch for a row. -/
def entryOf (conv : Conversions) (plan : LevelDBInsertPlan) (row : List ExecutionResult) : Fallible Entry := do
  let key ← copyRow conv plan.keyTypes (plan.table.keyRow row)
  let value ← copyRow conv plan.valueTypes (plan.table.valueRow row)
  return (key, value)

theorem next_eq (hv : t.Valid) {row : List ExecutionResult} (hlen : row.length = t.columns.length) {s : State}
    (hk : s.keyResults.length = t.keys.length) (hval : s.valueResults.length = t.values.length) :
    (create t).next conv row s = ((create t).entryOf conv row).map (fun e =>
      { keyResults := t.keyRow row, valueResults := t.valueRow row, batch := s.batch ++ [e],
        insertRows := s.insertRows + 1 }) := by
  rw [next, entryOf, show (create t).table = t from rfl, storeColumns_row hv hlen hk hval, ok_bind]
  dsimp only
  cases copyRow conv (create t).keyTypes (t.keyRow row) with
  | error f => rfl
  | ok key => cases copyRow conv (create t).valueTypes (t.valueRow row) <;> rfl

theorem nextAll_ok (hv : t.Valid) {rows : List (List ExecutionResult)} (hlen : ∀ row ∈ rows, row.length = t.columns.length)
    {s s' : State} (hk : s.keyResults.length = t.keys.length) (hval : s.valueResults.length = t.values.length)
    (h : (create t).nextAll conv rows s = .ok s') :
    ∃ es, s'.batch = s.batch ++ es ∧ List.Forall₂ (fun row e => (create t).entryOf conv row = .ok e) rows es := by
  induction rows generalizing s with
  | nil =>
    cases h
    exact ⟨[], by simp, .nil⟩
  | cons row rows ih =>
    obtain ⟨s1, h1, h⟩ := bind_eq_ok.mp h
    rw [next_eq hv (hlen row (by simp)) hk hval] at h1
    cases he : (create t).entryOf conv row with
    | error f =>
      rw [he] at h1
      cases h1
    | ok e =>
      rw [he] at h1
      cases h1
      obtain ⟨es, hb, hes⟩ := ih (fun r hr => hlen r (by simp [hr])) (by simp [TableInfo.keyRow])
        (by simp [TableInfo.valueRow]) h
      exact ⟨e :: es, by rw [hb]; simp, .cons he hes⟩

theorem accepted_length {row : List ExecutionResult} (h : Accepted t row) : row.length = t.columns.length := h.types.length_eq.symm

theorem admitted_of_accepted {row : List ExecutionResult} (h : Accepted t row) (hf : FloatsReadBack t row) : Admitted t row where
  types := by
    have htypes := h.types
    rw [FloatsReadBack] at hf
    rw [List.forall₂_iff_get] at htypes hf ⊢
    exact ⟨htypes.1, fun i h1 h2 => hasType_iff.mpr ⟨htypes.2 i h1 h2, hf.2 i h1 h2⟩⟩
  noNaN := h.noNaN

theorem admitted_length {row : List ExecutionResult} (h : Admitted t row) : row.length = t.columns.length := h.types.length_eq.symm

/-- A run that succeeds has written the entries of its rows as one batch. -/
theorem run_ok (hv : t.Valid) {rows : List (List ExecutionResult)} (hlen : ∀ row ∈ rows, row.length = t.columns.length)
    {n : Nat} {f : Option Fault} {db : LevelDB} {r : LevelDB × Nat} (h : (create t).run conv n ⟨rows, f⟩ db = .ok r) :
    ∃ es, r.1 = LevelDB.commit conv t es db ∧
      List.Forall₂ (fun row e => (create t).entryOf conv row = .ok e) rows es := by
  rw [run] at h
  split at h
  · cases h
  · obtain ⟨s, hs, h⟩ := bind_eq_ok.mp h
    obtain ⟨es, hb, hes⟩ := nextAll_ok hv hlen (by simp [initial, length_keyTypes hv])
      (by simp [initial, valueTypes_eq hv, hv.length_valueTypes]) hs
    cases f with
    | some f => cases h
    | none =>
      cases h
      exact ⟨es, by rw [hb]; rfl, hes⟩

end LevelDBInsertPlan

end LevelPgServer
