import LevelPgServer.Common.Predicate
import LevelPgServer.Execution.KeyRange

namespace LevelPgServer

open ParseNode DataRow KeyOrder KeyRange ExceptRules ThreeWay

/-- The contents of a table as its inserts leave them: in the order of the comparator,
with keys that were stored from values of the key columns and values that can be read and
are not the greatest string. -/
structure Store (conv : Conversions) (t : TableInfo) (db : LevelDB) : Prop where
  ordered : db.Pairwise (fun a b => keyCompare conv t.keyTypes a.1 b.1 = .lt)
  keys : ∀ e ∈ db, ∃ ks, IsKey conv t.keyTypes ks e.1
  values : ∀ e ∈ db, ∀ i < t.values.length, ∃ v, DataRow.getResult t.valueTypes e.2 i = .ok v ∧ v ≠ .maxString

namespace TableInfo

variable (conv : Conversions)

def keyOf (t : TableInfo) (e : Entry) : List ExecutionResult :=
  match (List.range t.getKeyCount).mapM (DataRow.getResult t.keyTypes e.1) with
  | .ok ks => ks
  | .error _ => []

def columnOf (t : TableInfo) (e : Entry) (c : DBColumnInfo) : Fallible ExecutionResult :=
  match c.keyIndex, c.valueIndex with
  | some k, _ => DataRow.getResult t.keyTypes e.1 k
  | none, some v => DataRow.getResult t.valueTypes e.2 v
  | none, none => .error .undefined

def operandColumn (t : TableInfo) (p : ParseNode) : Option DBColumnInfo :=
  if p.type = .name then t.getColumnByName p.getString else none

/-- An operand of a comparison with a column of the given type. -/
def operandOf (t : TableInfo) (e : Entry) (type : DBDataType) (p : ParseNode) : Fallible ExecutionResult :=
  match t.operandColumn p with
  | some c => t.columnOf e c
  | none => DBDataTypeHandler.fromNode conv type p

/-- The truth of a comparison at an entry; the left column, when there is one, decides the type. -/
def leafTest (t : TableInfo) (e : Entry) (op : Operation) (sExpr : Bytes) (l r : ParseNode) : Fallible Bool :=
  match (t.operandColumn l).or (t.operandColumn r) with
  | none => .error .undefined
  | some c => do
    let b ← t.operandOf conv e c.type r
    let a ← t.operandOf conv e c.type l
    FilterPlan.test conv c.type op sExpr a b

end TableInfo

namespace KeyOrder

theorem checkValue_float_ok {conv : Conversions} {t : FloatType} {d : Double} (hn : d.isNaN = false)
    (h : t.checkValue conv d = .ok ()) : t.lowest.orderKey ≤ d.orderKey ∧ d.orderKey ≤ t.max.orderKey := by
  have hlow : t.lowest.orderKey = -t.max.orderKey := by cases t <;> decide
  unfold FloatType.checkValue at h
  split at h
  · cases h
  · next hc =>
    have hle : |d.orderKey| ≤ t.max.orderKey := by
      by_contra hlt
      exact hc ⟨by simp [hn], not_le.mp hlt⟩
    rw [hlow]
    exact abs_le.mp hle

theorem bounded_of_write {conv : Conversions} {h : DBDataTypeHandler} {v : ExecutionResult} {bs : Bytes}
    (ho : isOrdered h v = true) (hw : h.write conv v = .ok bs) : Bounded h v := by
  cases h with
  | int t =>
    cases v with
    | int v =>
      obtain ⟨-, hmin, hmax⟩ := write_int_spec conv hw
      exact ⟨ho, Prod.Lex.toLex_mono ⟨hmin, le_rfl⟩, Prod.Lex.toLex_mono ⟨hmax, le_rfl⟩⟩
    | _ => simp [isOrdered, hasType] at ho
  | float t =>
    cases v with
    | double d =>
      have hn : d.isNaN = false := by cases t <;> simp [isOrdered, hasType] at ho <;> simp [ho]
      obtain ⟨-, hc⟩ := write_float_spec conv hw
      obtain ⟨hmin, hmax⟩ := checkValue_float_ok hn hc
      exact ⟨ho, Prod.Lex.toLex_mono ⟨hmin, le_rfl⟩, Prod.Lex.toLex_mono ⟨hmax, le_rfl⟩⟩
    | _ => cases t <;> simp [isOrdered, hasType] at ho
  | string =>
    cases v with
    | string s =>
      have hle : ([] : List ℕ) ≤ s.map UInt8.toNat := not_lt.mp (List.not_lt_nil _)
      exact ⟨ho, Prod.Lex.toLex_mono ⟨le_rfl, WithTop.coe_le_coe.mpr hle⟩, Prod.Lex.toLex_mono ⟨le_rfl, le_top⟩⟩
    | maxString => exact ⟨ho, Prod.Lex.toLex_mono ⟨le_rfl, le_top⟩, le_rfl⟩
    | _ => simp [isOrdered, hasType] at ho

theorem bounded_of_columnBytes {conv : Conversions} {types : List DBDataType} {vs : List ExecutionResult}
    (ho : OrderedTypes types vs) {cs : List Bytes} (hc : columnBytes conv types vs = .ok cs) :
    BoundedTypes types vs := by
  induction ho generalizing cs with
  | nil => exact .nil
  | cons hv _ ih =>
    obtain ⟨bs, cs', rfl, hw, hcs⟩ := columnBytes_cons conv hc
    exact .cons (bounded_of_write hv hw) (ih hcs)

end KeyOrder

theorem IsKey.bounded {conv : Conversions} {types : List DBDataType} {ks : List ExecutionResult} {key : Bytes}
    (h : IsKey conv types ks key) : BoundedTypes types ks := by
  obtain ⟨cs, hcs, -⟩ := h.stored
  exact bounded_of_columnBytes h.ordered hcs

theorem IsKey.mapM_getResult {conv : Conversions} {types : List DBDataType} {ks : List ExecutionResult}
    {key : Bytes} (h : IsKey conv types ks key) :
    (List.range types.length).mapM (DataRow.getResult types key) = .ok ks := by
  have hlen := h.ordered.length_eq
  have hget : ∀ i ∈ List.range types.length, DataRow.getResult types key i = .ok (ks.getD i .null) := by
    intro i hi
    have hlt : i < ks.length := hlen ▸ List.mem_range.mp hi
    exact h.getResult i _ (by simp [List.getElem?_eq_getElem hlt])
  rw [mapM_eq_ok hget]
  congr 1
  refine List.ext_getElem (by simp [hlen]) fun i h1 h2 => ?_
  simp [List.getElem?_eq_getElem h2]

namespace Store

variable {conv : Conversions} {t : TableInfo} {db : LevelDB}

theorem keyValues (hv : t.Valid) (hs : Store conv t db) {e : Entry} (he : e ∈ db) :
    IsKey conv t.keyTypes (t.keyOf e) e.1 ∧
      (List.range t.getKeyCount).mapM (DataRow.getResult t.keyTypes e.1) = .ok (t.keyOf e) := by
  obtain ⟨ks, hk⟩ := hs.keys e he
  have hm := hk.mapM_getResult
  rw [hv.length_keyTypes] at hm
  have hkey : t.keyOf e = ks := by rw [TableInfo.keyOf, TableInfo.getKeyCount, hm]
  rw [hkey]
  exact ⟨hk, hm⟩

theorem pairwise_ranks (hv : t.Valid) (hs : Store conv t db) :
    db.Pairwise (fun a b => ranks (t.keyOf a) < ranks (t.keyOf b)) := by
  refine hs.ordered.imp_of_mem fun {a b} ha hb h => ?_
  have hka := (hs.keyValues hv ha).1
  have hkb := (hs.keyValues hv hb).1
  obtain ⟨ds, hds, hb'⟩ := hkb.stored
  rw [hka.compare hkb.ordered hds hb'] at h
  exact order_eq_lt.mp h

end Store

end LevelPgServer
