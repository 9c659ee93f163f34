import LevelPgServer.Execution.KeyOrder
import LevelPgServer.Lib.OrderedMap

namespace LevelPgServer

open DataRow KeyOrder ExceptRules ThreeWay OrderedMap

namespace TableInfo

/-- `KeyComparator::m_keyTypes`: the types of the key columns in key order. -/
def keyTypes (t : TableInfo) : List DBDataType := (t.keys.filterMap t.getColumn).map DBColumnInfo.type

def valueTypes (t : TableInfo) : List DBDataType := (t.values.filterMap t.getColumn).map DBColumnInfo.type

theorem getElem?_filterMap {α β : Type} {f : α → Option β} {l : List α} (h : ∀ a ∈ l, f a ≠ none) (k : Nat) :
    (l.filterMap f)[k]? = l[k]?.bind f := by
  induction l generalizing k with
  | nil => rfl
  | cons a l ih =>
    obtain ⟨b, hb⟩ := Option.ne_none_iff_exists'.mp (h a (by simp))
    rw [List.filterMap_cons_some hb]
    cases k with
    | zero => simp [hb]
    | succ k => exact ih (fun c hc => h c (by simp [hc])) k

theorem Valid.getElem?_keyTypes {t : TableInfo} (h : t.Valid) (k : Nat) :
    t.keyTypes[k]? = (t.getKeyColumn k).map DBColumnInfo.type := by
  have hs : ∀ i ∈ t.keys, t.getColumn i ≠ none := by
    intro i hi
    simpa [getColumn] using h.keys_lt i hi
  rw [keyTypes, List.getElem?_map, getElem?_filterMap hs]
  rfl

theorem Valid.getElem?_valueTypes {t : TableInfo} (h : t.Valid) (v : Nat) :
    t.valueTypes[v]? = (t.getValueColumn v).map DBColumnInfo.type := by
  have hs : ∀ i ∈ t.values, t.getColumn i ≠ none := by
    intro i hi
    simpa [getColumn] using h.values_lt i hi
  rw [valueTypes, List.getElem?_map, getElem?_filterMap hs]
  rfl

theorem Valid.length_keyTypes {t : TableInfo} (h : t.Valid) : t.keyTypes.length = t.keys.length := by
  have hs : ∀ i ∈ t.keys, (t.getColumn i).isSome := by
    intro i hi
    simpa [getColumn] using h.keys_lt i hi
  simpa [keyTypes] using hs

theorem Valid.length_valueTypes {t : TableInfo} (h : t.Valid) : t.valueTypes.length = t.values.length := by
  have hs : ∀ i ∈ t.values, (t.getColumn i).isSome := by
    intro i hi
    simpa [getColumn] using h.values_lt i hi
  simpa [valueTypes] using hs

end TableInfo

/-- `KeyComparator::Compare`. Keys that cannot be read as keys of the table, which the
C++ reads past their end, compare as equal. -/
def keyCompare (conv : Conversions) (types : List DBDataType) (a b : Bytes) : Ordering :=
  match DataRow.compare conv types a b with
  | .ok o => o
  | .error _ => .eq

abbrev Entry := Bytes × Bytes

/-- The contents of one table, in the order of its comparator. -/
abbrev LevelDB := List Entry

namespace LevelDB

def commit (conv : Conversions) (t : TableInfo) (batch : List Entry) (db : LevelDB) : LevelDB :=
  putAll (keyCompare conv t.keyTypes) batch db

end LevelDB

/-- A position in a snapshot of the contents: the entries before it, last one first,
and those from it on. -/
structure LevelDBIterator where
  before : List Entry
  ahead : List Entry

namespace LevelDBIterator

def entries (it : LevelDBIterator) : List Entry := it.before.reverse ++ it.ahead

def createIterator (db : LevelDB) : LevelDBIterator := ⟨db.reverse, []⟩

def valid (it : LevelDBIterator) : Bool := !it.ahead.isEmpty

def first (it : LevelDBIterator) : LevelDBIterator := ⟨[], it.entries⟩

def seek (conv : Conversions) (types : List DBDataType) (start : Bytes) (it : LevelDBIterator) : LevelDBIterator :=
  let isBefore := fun e : Entry => keyCompare conv types e.1 start == .lt
  ⟨(it.entries.takeWhile isBefore).reverse, OrderedMap.seek (keyCompare conv types) start it.entries⟩

def next : LevelDBIterator → LevelDBIterator
  | ⟨b, e :: es⟩ => ⟨e :: b, es⟩
  | it => it

@[simp] theorem entries_createIterator (db : LevelDB) : (createIterator db).entries = db := by
  simp [createIterator, entries]

end LevelDBIterator

/-- The values a key stands for: readable, of the types of the key columns, without
NaN and the greatest string, and stored with `copy`. -/
structure IsKey (conv : Conversions) (types : List DBDataType) (ks : List ExecutionResult) (key : Bytes) : Prop where
  ordered : OrderedTypes types ks
  readable : Readable ks
  noMax : .maxString ∉ ks
  stored : ∃ cs, columnBytes conv types ks = .ok cs ∧ key = cs.flatten

theorem IsKey.getResult {conv : Conversions} {types : List DBDataType} {ks : List ExecutionResult} {key : Bytes}
    (h : IsKey conv types ks key) (i : Nat) (v : ExecutionResult) (hv : ks[i]? = some v) :
    DataRow.getResult types key i = .ok v := by
  obtain ⟨cs, hcs, rfl⟩ := h.stored
  have hr : ∀ w ∈ ks.take i, sizeReadsBack w = true := by
    intro w hw
    have hlt : i < ks.length := (List.getElem?_eq_some_iff.mp hv).1
    refine h.readable w ?_
    rw [List.dropLast_eq_take]
    exact List.mem_of_mem_take (i := i) (by rwa [List.take_take, min_eq_left (by omega)])
  have hg := getResult_eq conv h.ordered.hasTypes hcs [] i hr v hv
  rwa [List.append_nil] at hg

theorem IsKey.compare {conv : Conversions} {types : List DBDataType} {ks ss : List ExecutionResult} {a b : Bytes}
    (ha : IsKey conv types ks a) (hs : OrderedTypes types ss) {ds : List Bytes}
    (hd : columnBytes conv types ss = .ok ds) (hb : b = ds.flatten) :
    keyCompare conv types a b = order (ranks ks) (ranks ss) := by
  obtain ⟨cs, hcs, rfl⟩ := ha.stored
  have h := compare_row conv ha.ordered hs hcs hd ha.readable [] []
  rw [List.append_nil, List.append_nil] at h
  rw [keyCompare, hb, h]

end LevelPgServer
