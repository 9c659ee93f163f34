import LevelPgServer.Common.EditedLines

namespace LevelPgServer

/-- What a line of a table definition does to the columns. -/
inductive TableLine
  | column (name : Bytes)
  | key (names : List Bytes)
  deriving DecidableEq

namespace TableLine

def keyNames : TableLine → List Bytes
  | column _ => []
  | key names => names

/-- How often the key lines name a column. -/
def timesKey (name : Bytes) (ls : List TableLine) : Nat := (ls.flatMap keyNames).count name

/-- How often a column becomes a value column: at each key line up to the first that names it. -/
def timesValue (name : Bytes) : List TableLine → Nat
  | [] => 0
  | column _ :: ls => timesValue name ls
  | key names :: ls => if name ∈ names then 0 else timesValue name ls + 1

/-- Every column has a name of its own, and either the first key line behind it names it, once, and no other
does, or there is one key line behind it and that does not name it. -/
def Numbered : List TableLine → Prop
  | [] => True
  | column name :: ls => column name ∉ ls ∧ timesKey name ls + timesValue name ls = 1 ∧ Numbered ls
  | key _ :: ls => Numbered ls

instance decidableNumbered : (ls : List TableLine) → Decidable (Numbered ls)
  | [] => .isTrue trivial
  | column name :: ls =>
    have := decidableNumbered ls
    inferInstanceAs (Decidable (column name ∉ ls ∧ timesKey name ls + timesValue name ls = 1 ∧ Numbered ls))
  | key _ :: ls => decidableNumbered ls

end TableLine

namespace TableInfo

open TableLine

def IsKey (t : TableInfo) (i : Nat) (c : DBColumnInfo) : Prop := ∃ k, c.keyIndex = some k ∧ t.keys[k]? = some i

def IsValue (t : TableInfo) (i : Nat) (c : DBColumnInfo) : Prop := ∃ v, c.valueIndex = some v ∧ t.values[v]? = some i

/-- Every column is a key column or a value column, where its index says, and not both; every entry of the
two lists is meant by the column it points to; a column is found by its name. -/
structure Partitioned (t : TableInfo) : Prop where
  column : ∀ (i : Nat) c, t.columns[i]? = some c → Xor (t.IsKey i c) (t.IsValue i c)
  key : ∀ (k i : Nat), t.keys[k]? = some i → ∃ c, t.columns[i]? = some c ∧ c.keyIndex = some k
  value : ∀ (v i : Nat), t.values[v]? = some i → ∃ c, t.columns[i]? = some c ∧ c.valueIndex = some v
  lookup : ∀ (i : Nat) c, t.columns[i]? = some c → c.index = i ∧ t.findColumn c.name = some i

/-- What holds of the columns of every table: an index points to an entry for its column, and every entry is
for a column that has an index. -/
structure Points (t : TableInfo) : Prop where
  index : ∀ (i : Nat) c, t.columns[i]? = some c → c.index = i
  key : ∀ (i : Nat) c k, t.columns[i]? = some c → c.keyIndex = some k → t.keys[k]? = some i
  value : ∀ (i : Nat) c v, t.columns[i]? = some c → c.valueIndex = some v → t.values[v]? = some i
  keyed : ∀ i ∈ t.keys, ∃ c, t.columns[i]? = some c ∧ c.keyIndex ≠ none
  valued : ∀ i ∈ t.values, ∃ c, t.columns[i]? = some c ∧ c.valueIndex ≠ none

/-- Reading the lines leads from a table to a table. Lines that set other attributes stand between them. -/
inductive Reads : TableInfo → List TableLine → TableInfo → Prop
  | done {t : TableInfo} : Reads t [] t
  | column {t t' : TableInfo} {ls : List TableLine} {name : Bytes} {type : DBDataType} {len : Nat}
      (h : Reads (t.addColumn name type len) ls t') : Reads t (.column name :: ls) t'
  | key {t u v t' : TableInfo} {ls : List TableLine} {names : List Bytes} (hk : t.addKeyColumns names = .ok u)
      (he : u.evaluate = .ok v) (h : Reads v ls t') : Reads t (.key names :: ls) t'
  | other {t u t' : TableInfo} {ls : List TableLine} (hc : u.columns = t.columns) (hk : u.keys = t.keys)
      (hv : u.values = t.values) (h : Reads u ls t') : Reads t ls t'

variable {t u v t' : TableInfo} {ls ls' : List TableLine}

theorem Reads.of_same (hc : u.columns = t.columns) (hk : u.keys = t.keys) (hv : u.values = t.values) : Reads t [] u :=
  .other hc hk hv .done

theorem Reads.append (h : Reads t ls u) (h' : Reads u ls' t') : Reads t (ls ++ ls') t' := by
  induction h with
  | done => exact h'
  | column _ ih => exact .column (ih h')
  | key hk he _ ih => exact .key hk he (ih h')
  | other hc hk hv _ ih => exact .other hc hk hv (ih h')

section Names

theorem getElem?_columnNames (t : TableInfo) (i : Nat) : t.columnNames[i]? = t.columns[i]?.map DBColumnInfo.name :=
  List.getElem?_map

theorem length_columnNames (t : TableInfo) : t.columnNames.length = t.columns.length := List.length_map _

theorem lt_of_columnName {name : Bytes} {i : Nat} (h : t.columnNames[i]? = some name) : i < t.columns.length := by
  rw [getElem?_columnNames] at h
  obtain ⟨c, hc, -⟩ := Option.map_eq_some_iff.mp h
  exact (List.getElem?_eq_some_iff.mp hc).1

theorem findColumn_name {name : Bytes} {i : Nat} (h : t.findColumn name = some i) : t.columnNames[i]? = some name := by
  rw [findColumn, List.findRev?_eq_find?_reverse] at h
  have hname := List.find?_some h
  rwa [beq_iff_eq, ← getElem?_columnNames] at hname

theorem findColumn_isSome {name : Bytes} {i : Nat} (h : t.columnNames[i]? = some name) : t.findColumn name ≠ none := by
  rw [findColumn, List.findRev?_eq_find?_reverse]
  intro hnone
  have hlt := lt_of_columnName h
  have hno := List.find?_eq_none.mp hnone i (by simpa using hlt)
  rw [getElem?_columnNames] at h
  simp [h] at hno

theorem findColumn_iff (h : t.columnNames.Nodup) {name : Bytes} {i : Nat} :
    t.findColumn name = some i ↔ t.columnNames[i]? = some name := by
  refine ⟨findColumn_name, fun hi => ?_⟩
  obtain ⟨j, hj⟩ := Option.ne_none_iff_exists'.mp (findColumn_isSome hi)
  obtain ⟨hlt, hget⟩ := List.getElem?_eq_some_iff.mp hi
  obtain ⟨hlt', hget'⟩ := List.getElem?_eq_some_iff.mp (findColumn_name hj)
  rw [hj, (List.Nodup.getElem_inj_iff h).mp (hget'.trans hget.symm)]

theorem columnNames_addColumn (t : TableInfo) (name : Bytes) (type : DBDataType) (len : Nat) :
    (t.addColumn name type len).columnNames = t.columnNames ++ [name] := by
  simp [columnNames, addColumn]

theorem columnNames_of_columns (h : u.columns = t.columns) : u.columnNames = t.columnNames := by
  rw [columnNames, h, columnNames]

theorem columnNames_addKeyColumns {names : List Bytes} (h : t.addKeyColumns names = .ok u) :
    u.columnNames = t.columnNames := by
  obtain ⟨u', hu', hnames, -⟩ | ⟨what, hw, -⟩ := t.addKeyColumns_cases names
  · rw [h] at hu'
    cases hu'
    exact hnames
  · rw [h] at hw
    cases hw

theorem evaluate_ok (h : t.evaluate = .ok u) : u.keys = t.keys ∧
    u.columns = (assignValues 0 t.values.length t.columns).1 ∧
      u.values = t.values ++ (assignValues 0 t.values.length t.columns).2 := by
  rw [evaluate] at h
  split at h
  · cases h
  · cases h
    exact ⟨rfl, rfl, rfl⟩

theorem columnNames_evaluate (h : t.evaluate = .ok u) : u.columnNames = t.columnNames := by
  rw [columnNames, (evaluate_ok h).2.1]
  exact assignValues_names _ _ _

/-- The names of the columns that are added, behind those that are there. -/
theorem Reads.columnNames (h : Reads t ls t') :
    ∃ names, t'.columnNames = t.columnNames ++ names ∧ ∀ name, name ∈ names ↔ .column name ∈ ls := by
  induction h with
  | done => exact ⟨[], (List.append_nil _).symm, by simp⟩
  | @column _ _ _ name _ _ _ ih =>
    obtain ⟨names, hn, hmem⟩ := ih
    refine ⟨name :: names, by rw [hn, columnNames_addColumn, List.append_assoc]; rfl, fun n => ?_⟩
    rw [List.mem_cons, List.mem_cons, hmem, TableLine.column.injEq]
  | key hk he _ ih =>
    obtain ⟨names, hn, hmem⟩ := ih
    refine ⟨names, by rw [hn, columnNames_evaluate he, columnNames_addKeyColumns hk], fun n => ?_⟩
    rw [hmem]
    simp
  | other hc _ _ _ ih =>
    obtain ⟨names, hn, hmem⟩ := ih
    exact ⟨names, by rw [hn, columnNames_of_columns hc], hmem⟩

end Names

section Invariant

theorem Points.lt (h : t.Points) {i : Nat} (hi : i ∈ t.keys ∨ i ∈ t.values) : i < t.columns.length := by
  obtain hi | hi := hi
  · obtain ⟨c, hc, -⟩ := h.keyed i hi
    exact (List.getElem?_eq_some_iff.mp hc).1
  · obtain ⟨c, hc, -⟩ := h.valued i hi
    exact (List.getElem?_eq_some_iff.mp hc).1

theorem getElem?_addColumn {name : Bytes} {type : DBDataType} {len i : Nat} {c : DBColumnInfo}
    (h : (t.addColumn name type len).columns[i]? = some c) :
    t.columns[i]? = some c ∨ i = t.columns.length ∧ c = { name, type, len, index := t.columns.length } := by
  obtain hi | hi := Nat.lt_or_ge i t.columns.length
  · rw [addColumn, List.getElem?_append_left hi] at h
    exact .inl h
  · rw [addColumn, List.getElem?_append_right hi, List.getElem?_singleton] at h
    split at h
    · cases h
      exact .inr ⟨by omega, rfl⟩
    · cases h

theorem Points.addColumn (h : t.Points) (name : Bytes) (type : DBDataType) (len : Nat) :
    (t.addColumn name type len).Points where
  index i c hc := by
    obtain hc | ⟨rfl, rfl⟩ := getElem?_addColumn hc
    · exact h.index i c hc
    · rfl
  key i c k hc hk := by
    obtain hc | ⟨rfl, rfl⟩ := getElem?_addColumn hc
    · exact h.key i c k hc hk
    · cases hk
  value i c v hc hv := by
    obtain hc | ⟨rfl, rfl⟩ := getElem?_addColumn hc
    · exact h.value i c v hc hv
    · cases hv
  keyed i hi := by
    obtain ⟨c, hc, hne⟩ := h.keyed i hi
    exact ⟨c, by rw [TableInfo.addColumn, List.getElem?_append_left (h.lt (.inl hi)), hc], hne⟩
  valued i hi := by
    obtain ⟨c, hc, hne⟩ := h.valued i hi
    exact ⟨c, by rw [TableInfo.addColumn, List.getElem?_append_left (h.lt (.inr hi)), hc], hne⟩

theorem addKeyColumn_ok {name : Bytes} (h : t.addKeyColumn name = .ok u) :
    ∃ i, t.findColumn name = some i ∧ u.keys = t.keys ++ [i] ∧ u.values = t.values ∧
      u.columns = setKeyIndex t.columns i t.keys.length := by
  rw [TableInfo.addKeyColumn] at h
  split at h
  · next i hi =>
    cases h
    exact ⟨i, hi, rfl, rfl, rfl⟩
  · cases h

theorem getElem?_append_of_some {l m : List Nat} {k i : Nat} (h : l[k]? = some i) : (l ++ m)[k]? = some i := by
  rw [List.getElem?_append_left (List.getElem?_eq_some_iff.mp h).1, h]

theorem Points.addKeyColumn (h : t.Points) {name : Bytes} (hk : t.addKeyColumn name = .ok u) : u.Points := by
  obtain ⟨i, hi, hkeys, hvalues, hcolumns⟩ := addKeyColumn_ok hk
  have hlt := findColumn_lt hi
  have hget : ∀ {j : Nat} {c : DBColumnInfo}, u.columns[j]? = some c → ∃ b, t.columns[j]? = some b ∧ c.index = b.index ∧
      c.valueIndex = b.valueIndex ∧ c.keyIndex = if j = i then some t.keys.length else b.keyIndex := by
    intro j c hc
    rw [hcolumns, getElem?_setKeyIndex] at hc
    split at hc
    · next hj =>
      obtain ⟨b, hb, rfl⟩ := Option.map_eq_some_iff.mp hc
      exact ⟨b, hb, rfl, rfl, by rw [if_pos hj]⟩
    · next hj => exact ⟨c, hc, rfl, rfl, by rw [if_neg hj]⟩
  have hset : ∀ {j : Nat} {b : DBColumnInfo}, t.columns[j]? = some b → ∃ c, u.columns[j]? = some c ∧
      c.valueIndex = b.valueIndex ∧ c.keyIndex = if j = i then some t.keys.length else b.keyIndex := by
    intro j b hb
    rw [hcolumns, getElem?_setKeyIndex, hb]
    by_cases hj : j = i
    · exact ⟨_, if_pos hj, rfl, by rw [if_pos hj]⟩
    · exact ⟨b, if_neg hj, rfl, by rw [if_neg hj]⟩
  refine ⟨fun j c hc => ?_, fun j c k hc hck => ?_, fun j c v hc hcv => ?_, fun j hj => ?_, fun j hj => ?_⟩
  · obtain ⟨b, hb, hindex, -⟩ := hget hc
    rw [hindex, h.index j b hb]
  · obtain ⟨b, hb, -, -, hkey⟩ := hget hc
    rw [hkeys]
    rw [hkey] at hck
    split at hck
    · next hj =>
      cases hck
      rw [List.getElem?_append_right le_rfl, Nat.sub_self, hj]
      rfl
    · exact getElem?_append_of_some (h.key j b k hb hck)
  · obtain ⟨b, hb, -, hvalue, -⟩ := hget hc
    rw [hvalues]
    exact h.value j b v hb (hvalue.symm.trans hcv)
  · rw [hkeys] at hj
    obtain hj | hj := List.mem_append.mp hj
    · obtain ⟨b, hb, hne⟩ := h.keyed j hj
      obtain ⟨c, hc, -, hkey⟩ := hset hb
      refine ⟨c, hc, ?_⟩
      rw [hkey]
      split
      · simp
      · exact hne
    · obtain rfl := List.mem_singleton.mp hj
      obtain ⟨c, hc, -, hkey⟩ := hset (List.getElem?_eq_getElem hlt)
      exact ⟨c, hc, by rw [hkey, if_pos rfl]; simp⟩
  · rw [hvalues] at hj
    obtain ⟨b, hb, hne⟩ := h.valued j hj
    obtain ⟨c, hc, hvalue, -⟩ := hset hb
    exact ⟨c, hc, by rwa [hvalue]⟩

theorem Points.addKeyColumns (h : t.Points) {names : List Bytes} (hk : t.addKeyColumns names = .ok u) : u.Points := by
  induction names generalizing t with
  | nil =>
    cases hk
    exact h
  | cons name names ih =>
    rw [TableInfo.addKeyColumns] at hk
    cases hone : t.addKeyColumn name with
    | error what =>
      rw [hone] at hk
      cases hk
    | ok v =>
      rw [hone] at hk
      exact ih (h.addKeyColumn hone) hk

theorem Points.evaluate (h : t.Points) (he : t.evaluate = .ok u) : u.Points := by
  obtain ⟨hkeys, hcolumns, hvalues⟩ := evaluate_ok he
  have hcol := getElem?_assignValues 0 t.values.length t.columns
  have hval := getElem?_assignValues_values 0 t.values.length t.columns
  simp only [Nat.zero_add] at hcol hval
  rw [← hcolumns] at hcol hval
  have hget : ∀ {j : Nat} {b : DBColumnInfo}, t.columns[j]? = some b → ∃ c, u.columns[j]? = some c := by
    intro j b hb
    have hlt := (List.getElem?_eq_some_iff.mp hb).1
    have hlen : u.columns.length = t.columns.length := by rw [hcolumns, length_assignValues]
    exact ⟨_, List.getElem?_eq_getElem (hlen ▸ hlt)⟩
  refine ⟨fun j c hc => ?_, fun j c k hc hck => ?_, fun j c v hc hcv => ?_, fun j hj => ?_, fun j hj => ?_⟩
  · obtain ⟨b, hb, -, hindex, -⟩ := hcol j c hc
    rw [hindex, h.index j b hb]
  · obtain ⟨b, hb, hkey, -⟩ := hcol j c hc
    rw [hkeys]
    exact h.key j b k hb (hkey.symm.trans hck)
  · obtain ⟨b, hb, -, -, hsome, hnone⟩ := hcol j c hc
    rw [hvalues]
    by_cases hb' : b.keyIndex = none
    · obtain ⟨w, hw, hentry⟩ := hnone hb'
      rw [hw] at hcv
      cases hcv
      rw [List.getElem?_append_right (Nat.le_add_right _ _), Nat.add_sub_cancel_left, hentry]
    · exact getElem?_append_of_some (h.value j b v hb ((hsome hb').symm.trans hcv))
  · rw [hkeys] at hj
    obtain ⟨b, hb, hne⟩ := h.keyed j hj
    obtain ⟨c, hc⟩ := hget hb
    obtain ⟨b', hb', hkey, -⟩ := hcol j c hc
    rw [hb] at hb'
    cases hb'
    exact ⟨c, hc, by rwa [hkey]⟩
  · rw [hvalues] at hj
    obtain hj | hj := List.mem_append.mp hj
    · obtain ⟨b, hb, hne⟩ := h.valued j hj
      obtain ⟨c, hc⟩ := hget hb
      obtain ⟨b', hb', -, -, hsome, hnone⟩ := hcol j c hc
      rw [hb] at hb'
      cases hb'
      refine ⟨c, hc, ?_⟩
      by_cases hbk : b.keyIndex = none
      · obtain ⟨w, hw, -⟩ := hnone hbk
        simp [hw]
      · rwa [hsome hbk]
    · obtain ⟨w, hw⟩ := List.mem_iff_getElem?.mp hj
      obtain ⟨i, c, rfl, hc, hcv⟩ := hval w j hw
      exact ⟨c, hc, by simp [hcv]⟩

theorem Points.of_same (h : t.Points) (hc : u.columns = t.columns) (hk : u.keys = t.keys) (hv : u.values = t.values) :
    u.Points where
  index := hc ▸ h.index
  key := by
    rw [hc, hk]
    exact h.key
  value := by
    rw [hc, hv]
    exact h.value
  keyed := by
    rw [hc, hk]
    exact h.keyed
  valued := by
    rw [hc, hv]
    exact h.valued

theorem Points.reads (h : t.Points) (hr : Reads t ls t') : t'.Points := by
  induction hr with
  | done => exact h
  | column _ ih => exact ih (h.addColumn _ _ _)
  | key hk he _ ih => exact ih ((h.addKeyColumns hk).evaluate he)
  | other hc hk hv _ ih => exact ih (h.of_same hc hk hv)

theorem points_empty : Points {} := ⟨by simp, by simp, by simp, by simp, by simp⟩

end Invariant

section Counts

theorem Points.mem_keys (h : t.Points) {i : Nat} {c : DBColumnInfo} (hc : t.columns[i]? = some c) :
    i ∈ t.keys ↔ t.IsKey i c := by
  constructor
  · intro hi
    obtain ⟨c', hc', hne⟩ := h.keyed i hi
    cases hc.symm.trans hc'
    obtain ⟨k, hk⟩ := Option.ne_none_iff_exists'.mp hne
    exact ⟨k, hk, h.key i c k hc hk⟩
  · rintro ⟨k, -, hk⟩
    exact List.mem_of_getElem? hk

theorem Points.mem_values (h : t.Points) {i : Nat} {c : DBColumnInfo} (hc : t.columns[i]? = some c) :
    i ∈ t.values ↔ t.IsValue i c := by
  constructor
  · intro hi
    obtain ⟨c', hc', hne⟩ := h.valued i hi
    cases hc.symm.trans hc'
    obtain ⟨v, hv⟩ := Option.ne_none_iff_exists'.mp hne
    exact ⟨v, hv, h.value i c v hc hv⟩
  · rintro ⟨v, -, hv⟩
    exact List.mem_of_getElem? hv

theorem nodup_of_getElem? {l : List Nat} {f : Nat → Option Nat} (h : ∀ (k i : Nat), l[k]? = some i → f i = some k) :
    l.Nodup := by
  rw [List.nodup_iff_injective_getElem]
  intro ⟨k, hk⟩ ⟨k', hk'⟩ he
  have he : l[k] = l[k'] := he
  have h1 := h k _ (List.getElem?_eq_getElem hk)
  have h2 := h k' _ (List.getElem?_eq_getElem hk')
  rw [he, h2] at h1
  simpa using h1.symm

/-- The columns are partitioned where every column stands once in one of the lists. -/
theorem Points.partitioned_iff (h : t.Points) : t.Partitioned ↔
    t.columnNames.Nodup ∧ ∀ i < t.columns.length, t.keys.count i + t.values.count i = 1 := by
  constructor
  · intro hp
    have hkeys : t.keys.Nodup := by
      refine nodup_of_getElem? (f := fun i => t.columns[i]?.bind DBColumnInfo.keyIndex) fun k i hk => ?_
      obtain ⟨c, hc, hck⟩ := hp.key k i hk
      simp [hc, hck]
    have hvalues : t.values.Nodup := by
      refine nodup_of_getElem? (f := fun i => t.columns[i]?.bind DBColumnInfo.valueIndex) fun v i hv => ?_
      obtain ⟨c, hc, hcv⟩ := hp.value v i hv
      simp [hc, hcv]
    refine ⟨?_, fun i hi => ?_⟩
    · rw [List.nodup_iff_injective_getElem]
      intro ⟨i, hi⟩ ⟨j, hj⟩ he
      have he : t.columnNames[i] = t.columnNames[j] := he
      have hfind : ∀ (k : Nat) (hk : k < t.columnNames.length), t.findColumn t.columnNames[k] = some k := by
        intro k hk
        have hk' := List.getElem?_eq_getElem hk
        rw [getElem?_columnNames] at hk'
        obtain ⟨c, hc, hname⟩ := Option.map_eq_some_iff.mp hk'
        rw [← hname, (hp.lookup k c hc).2]
      have h1 := hfind i hi
      rw [he, hfind j hj] at h1
      simpa using h1.symm
    · have hc := List.getElem?_eq_getElem hi
      rw [hkeys.count, hvalues.count]
      obtain ⟨hk, hv⟩ | ⟨hv, hk⟩ := hp.column i _ hc
      · rw [if_pos ((h.mem_keys hc).mpr hk), if_neg (mt (h.mem_values hc).mp hv)]
      · rw [if_neg (mt (h.mem_keys hc).mp hk), if_pos ((h.mem_values hc).mpr hv)]
  · rintro ⟨hnames, hcount⟩
    have honce : ∀ {l : List Nat} {k k' i : Nat}, l.count i ≤ 1 → l[k]? = some i → l[k']? = some i → k = k' := by
      intro l k k' i hle hk hk'
      by_contra hne
      obtain ⟨hlt, hget⟩ := List.getElem?_eq_some_iff.mp hk
      obtain ⟨hlt', hget'⟩ := List.getElem?_eq_some_iff.mp hk'
      have hdup : List.Duplicate i l := by
        rw [List.duplicate_iff_exists_distinct_get]
        obtain hlt₁ | hlt₁ := Nat.lt_or_gt_of_ne hne
        · exact ⟨⟨k, hlt⟩, ⟨k', hlt'⟩, hlt₁, hget.symm, hget'.symm⟩
        · exact ⟨⟨k', hlt'⟩, ⟨k, hlt⟩, hlt₁, hget'.symm, hget.symm⟩
      have := List.duplicate_iff_two_le_count.mp hdup
      omega
    refine ⟨fun i c hc => ?_, fun k i hk => ?_, fun v i hv => ?_, fun i c hc => ⟨h.index i c hc, ?_⟩⟩
    · have hone := hcount i (List.getElem?_eq_some_iff.mp hc).1
      rw [← h.mem_keys hc, ← h.mem_values hc]
      by_cases hk : i ∈ t.keys
      · have hpos := List.count_pos_iff.mpr hk
        exact .inl ⟨hk, fun hv => by have := List.count_pos_iff.mpr hv; omega⟩
      · have hzero := List.count_eq_zero_of_not_mem hk
        exact .inr ⟨List.count_pos_iff.mp (by omega), hk⟩
    · have hmem := List.mem_of_getElem? hk
      obtain ⟨c, hc, hne⟩ := h.keyed i hmem
      obtain ⟨k', hk'⟩ := Option.ne_none_iff_exists'.mp hne
      have hone := hcount i (h.lt (.inl hmem))
      exact ⟨c, hc, by rw [hk', honce (by omega) (h.key i c k' hc hk') hk]⟩
    · have hmem := List.mem_of_getElem? hv
      obtain ⟨c, hc, hne⟩ := h.valued i hmem
      obtain ⟨v', hv'⟩ := Option.ne_none_iff_exists'.mp hne
      have hone := hcount i (h.lt (.inr hmem))
      exact ⟨c, hc, by rw [hv', honce (by omega) (h.value i c v' hc hv') hv]⟩
    · rw [findColumn_iff hnames, getElem?_columnNames, hc]
      rfl

def keyed (t : TableInfo) (i : Nat) : Bool := (t.columns[i]?.bind DBColumnInfo.keyIndex).isSome

theorem addKeyColumns_count {names : List Bytes} (hn : t.columnNames.Nodup) (h : t.addKeyColumns names = .ok u) {i : Nat}
    {name : Bytes} (hi : t.columnNames[i]? = some name) :
    u.keys.count i = t.keys.count i + names.count name ∧ u.values = t.values ∧
      u.keyed i = (t.keyed i || decide (name ∈ names)) := by
  induction names generalizing t with
  | nil =>
    cases h
    simp
  | cons n names ih =>
    rw [addKeyColumns] at h
    cases hone : t.addKeyColumn n with
    | error what =>
      rw [hone] at h
      cases h
    | ok w =>
      rw [hone] at h
      have hnames := (addKeyColumn_frame hone).1
      obtain ⟨j, hj, hkeys, hvalues, hcolumns⟩ := addKeyColumn_ok hone
      obtain ⟨hcount, hvalues', hkeyed⟩ := ih (hnames ▸ hn) h (hnames ▸ hi)
      have hij : j = i ↔ n = name := by
        rw [findColumn_iff hn] at hj
        constructor
        · rintro rfl
          exact Option.some.inj (hj.symm.trans hi)
        · rintro rfl
          exact Option.some.inj (((findColumn_iff hn).mpr hj).symm.trans ((findColumn_iff hn).mpr hi))
      refine ⟨?_, hvalues'.trans hvalues, ?_⟩
      · rw [hcount, hkeys, List.count_append, List.count_singleton, List.count_cons]
        by_cases hn' : n = name
        · simp [hn', hij.mpr hn']
          omega
        · simp [hn', mt hij.mp hn']
      · have hw : w.keyed i = (t.keyed i || decide (n = name)) := by
          have hlt := lt_of_columnName hi
          rw [keyed, keyed, hcolumns, getElem?_setKeyIndex]
          by_cases hji : i = j
          · rw [if_pos hji, List.getElem?_eq_getElem hlt]
            simp [hij.mp hji.symm]
          · rw [if_neg hji]
            simp [mt hij.mpr (fun h => hji h.symm)]
        rw [hkeyed, hw]
        by_cases hn' : n = name
        · simp [hn']
        · simp [hn', Ne.symm hn']

theorem mem_assignValues (i v : Nat) (cs : List DBColumnInfo) (x : Nat) :
    x ∈ (assignValues i v cs).2 ↔ ∃ j c, x = i + j ∧ cs[j]? = some c ∧ c.keyIndex = none := by
  induction cs generalizing i v with
  | nil => simp [assignValues]
  | cons c cs ih =>
    rw [assignValues]
    split
    · next k hk =>
      rw [ih]
      constructor
      · rintro ⟨j, b, rfl, hb, hn⟩
        exact ⟨j + 1, b, by omega, hb, hn⟩
      · rintro ⟨j, b, rfl, hb, hn⟩
        cases j with
        | zero =>
          cases hb
          rw [hk] at hn
          cases hn
        | succ j => exact ⟨j, b, by omega, hb, hn⟩
    · next hk =>
      rw [List.mem_cons, ih]
      constructor
      · rintro (rfl | ⟨j, b, rfl, hb, hn⟩)
        · exact ⟨0, c, rfl, rfl, hk⟩
        · exact ⟨j + 1, b, by omega, hb, hn⟩
      · rintro ⟨j, b, rfl, hb, hn⟩
        cases j with
        | zero => exact .inl rfl
        | succ j => exact .inr ⟨j, b, by omega, hb, hn⟩

theorem evaluate_count (h : t.evaluate = .ok u) {i : Nat} (hi : i < t.columns.length) :
    u.keys = t.keys ∧ u.values.count i = t.values.count i + (if t.keyed i then 0 else 1) ∧ u.keyed i = t.keyed i := by
  obtain ⟨hkeys, hcolumns, hvalues⟩ := evaluate_ok h
  obtain ⟨c, hc⟩ : ∃ c, (assignValues 0 t.values.length t.columns).1[i]? = some c :=
    ⟨_, List.getElem?_eq_getElem (by rwa [length_assignValues])⟩
  obtain ⟨b, hb, hkey, -⟩ := getElem?_assignValues 0 t.values.length t.columns i c hc
  have hkeyed : t.keyed i = b.keyIndex.isSome := by
    rw [keyed, hb]
    rfl
  have hnodup : (assignValues 0 t.values.length t.columns).2.Nodup :=
    (sorted_assignValues 0 t.values.length t.columns).2.imp fun h => Nat.ne_of_lt h
  have hmem : i ∈ (assignValues 0 t.values.length t.columns).2 ↔ b.keyIndex = none := by
    rw [mem_assignValues]
    constructor
    · rintro ⟨j, b', hj, hb', hn⟩
      obtain rfl : i = j := hj.trans (Nat.zero_add j)
      cases hb.symm.trans hb'
      exact hn
    · exact fun hn => ⟨i, b, (Nat.zero_add i).symm, hb, hn⟩
  refine ⟨hkeys, ?_, ?_⟩
  · rw [hvalues, List.count_append, hnodup.count, hkeyed]
    cases hbk : b.keyIndex with
    | none => simp [hmem, hbk]
    | some k => simp [hmem, hbk]
  · rw [keyed, hcolumns, hc, hkeyed, ← hkey]
    rfl

theorem Reads.count (h : Reads t ls t') (hn : t'.columnNames.Nodup) {i : Nat} {name : Bytes}
    (hi : t.columnNames[i]? = some name) :
    t'.keys.count i = t.keys.count i + timesKey name ls ∧
      t'.values.count i = t.values.count i + if t.keyed i then 0 else timesValue name ls := by
  induction h with
  | done => simp [timesKey, timesValue]
  | @column t _ ls n type len _ ih =>
    have hlt := (List.getElem?_eq_some_iff.mp hi).1
    have hi' : (t.addColumn n type len).columnNames[i]? = some name := by
      rw [columnNames_addColumn, List.getElem?_append_left hlt, hi]
    have hkeyed : (t.addColumn n type len).keyed i = t.keyed i := by
      rw [keyed, keyed, addColumn, List.getElem?_append_left (lt_of_columnName hi)]
    have hcount := ih hn hi'
    rw [hkeyed] at hcount
    exact hcount
  | @key t u v _ ls names hk he hr ih =>
    obtain ⟨added, hadded, -⟩ := hr.columnNames
    have hnv : v.columnNames.Nodup := (hadded ▸ hn).of_append_left
    have hvu := columnNames_evaluate he
    have hut := columnNames_addKeyColumns hk
    obtain ⟨hcount, hvalues, hkeyed⟩ := addKeyColumns_count (hut ▸ hvu ▸ hnv) hk hi
    have hiu : u.columnNames[i]? = some name := by rw [hut, hi]
    have hlt := lt_of_columnName hiu
    obtain ⟨hkeys, hcount', hkeyed'⟩ := evaluate_count he hlt
    obtain ⟨hk', hv'⟩ := ih hn (by rw [hvu, hiu])
    rw [hk', hv', hkeys, hcount, hcount', hvalues, hkeyed', hkeyed, timesValue]
    have htimes : timesKey name (.key names :: ls) = names.count name + timesKey name ls := by
      simp [timesKey, keyNames]
    refine ⟨by rw [htimes, Nat.add_assoc], ?_⟩
    cases t.keyed i with
    | true => simp
    | false =>
      by_cases hmem : name ∈ names
      · simp [hmem]
      · simp [hmem]
        omega
  | other hc hk hv _ ih =>
    have hcount := ih hn (by rw [columnNames_of_columns hc, hi])
    rwa [hk, hv, keyed, hc, ← keyed] at hcount

/-- The columns that the lines add are partitioned where the lines number them. -/
theorem Reads.numbered_iff (h : Reads t ls t') (hp : t.Points) (hold : t.columnNames.Nodup)
    (hnew : ∀ name ∈ t.columnNames, .column name ∉ ls) :
    (t'.columnNames.Nodup ∧ ∀ i < t'.columns.length, t.columns.length ≤ i → t'.keys.count i + t'.values.count i = 1) ↔
      Numbered ls := by
  induction h with
  | done =>
    refine ⟨fun _ => trivial, fun _ => ⟨hold, fun i hi hle => absurd hi (by omega)⟩⟩
  | @column t t' ls name type len hr ih =>
    have hlen : (t.addColumn name type len).columns.length = t.columns.length + 1 := by simp [addColumn]
    have hname : (t.addColumn name type len).columnNames[t.columns.length]? = some name := by
      rw [getElem?_columnNames, addColumn, List.getElem?_append_right le_rfl, Nat.sub_self]
      rfl
    have hzero : t.keys.count t.columns.length = 0 ∧ t.values.count t.columns.length = 0 := by
      constructor
      · exact List.count_eq_zero_of_not_mem fun hi => absurd (hp.lt (.inl hi)) (Nat.lt_irrefl _)
      · exact List.count_eq_zero_of_not_mem fun hi => absurd (hp.lt (.inr hi)) (Nat.lt_irrefl _)
    have hkeyed : (t.addColumn name type len).keyed t.columns.length = false := by
      rw [keyed, addColumn, List.getElem?_append_right le_rfl, Nat.sub_self]
      rfl
    obtain ⟨added, hadded, hmem⟩ := hr.columnNames
    have hcount : t'.columnNames.Nodup → t'.keys.count t.columns.length + t'.values.count t.columns.length =
        timesKey name ls + timesValue name ls := by
      intro hn
      obtain ⟨hk, hv⟩ := hr.count hn hname
      rw [hk, hv, hkeyed]
      simp [addColumn, hzero]
    have hfresh : name ∉ t.columnNames := fun hin => hnew name hin (List.mem_cons_self ..)
    have hold' : (t.addColumn name type len).columnNames.Nodup := by
      rw [columnNames_addColumn]
      exact hold.append (List.nodup_singleton _) (by simpa using hfresh)
    have hnew' : TableLine.column name ∉ ls →
        ∀ n ∈ (t.addColumn name type len).columnNames, TableLine.column n ∉ ls := by
      intro hno n hin
      rw [columnNames_addColumn, List.mem_append, List.mem_singleton] at hin
      obtain hin | rfl := hin
      · exact fun h => hnew n hin (List.mem_cons_of_mem _ h)
      · exact hno
    constructor
    · rintro ⟨hn, hall⟩
      have hno : TableLine.column name ∉ ls := by
        intro hin
        rw [hadded] at hn
        exact List.disjoint_of_nodup_append hn (List.mem_of_getElem? hname) ((hmem name).mpr hin)
      refine ⟨hno, ?_, (ih (hp.addColumn _ _ _) hold' (hnew' hno)).mp ⟨hn, fun i hi hle => hall i hi (by omega)⟩⟩
      rw [← hcount hn]
      refine hall _ ?_ le_rfl
      have hlt := (List.getElem?_eq_some_iff.mp hname).1
      have hname' : t'.columnNames[t.columns.length]? = some name := by
        rw [hadded, List.getElem?_append_left hlt, hname]
      exact lt_of_columnName hname'
    · rintro ⟨hno, hone, hrest⟩
      obtain ⟨hn, hall⟩ := (ih (hp.addColumn _ _ _) hold' (hnew' hno)).mpr hrest
      refine ⟨hn, fun i hi hle => ?_⟩
      obtain rfl | hlt := Nat.eq_or_lt_of_le hle
      · rw [hcount hn, hone]
      · exact hall i hi (by omega)
  | @key t u v _ ls names hk he hr ih =>
    have hnames : v.columnNames = t.columnNames := (columnNames_evaluate he).trans (columnNames_addKeyColumns hk)
    have hlen : v.columns.length = t.columns.length := by rw [← length_columnNames, hnames, length_columnNames]
    rw [← hlen]
    exact ih ((hp.addKeyColumns hk).evaluate he) (hnames ▸ hold)
      fun n hin h => hnew n (hnames ▸ hin) (List.mem_cons_of_mem _ h)
  | other hc hk hv _ ih =>
    rw [← hc]
    exact ih (hp.of_same hc hk hv) (columnNames_of_columns hc ▸ hold) (columnNames_of_columns hc ▸ hnew)

end Counts

end TableInfo

namespace MetaConfigLoader

open Captures TwoRuns TableInfo

section Load

/-- The name of the column that a `column` line adds. -/
def columnName (sValue : Bytes) : Option Bytes :=
  match search columnRegex sValue with
  | some ([name, _], _) => some name
  | _ => none

/-- What the text of a line does to the columns of its table. -/
def lineOf (text : Bytes) : Option TableLine :=
  (setting text).bind fun (k, v, _) =>
    if k = bytes "column" then (columnName v).map .column
    else if k = bytes "key" then some (.key (splitKeys v))
    else none

/-- The lines in front of the first table, and those of each table. -/
def splitTables : List Bytes → List TableLine × List (List TableLine)
  | [] => ([], [])
  | line :: lines =>
    let (ls, tables) := splitTables lines
    if bytes "[table]" <:+: uncommented line then ([], ls :: tables)
    else ((lineOf (uncommented line)).toList ++ ls, tables)

def tableLines (lines : List Bytes) : List (List TableLine) := (splitTables lines).2

variable {config config' : MetaConfigLoader}

theorem addColumn_reads {t t' : TableInfo} {v : Bytes} (h : addColumn t v = .ok t') :
    Reads t ((columnName v).map TableLine.column).toList t' := by
  rw [addColumn] at h
  split at h
  · next name sType rest hsearch =>
    have hname : columnName v = some name := by rw [columnName, hsearch]
    rw [hname]
    split at h
    · cases h
    · split at h
      · split_ifs at h
        cases h
        exact .column .done
      · cases h
        exact .column .done
  · cases h

theorem addKeys_reads {t t' : TableInfo} {v : Bytes} (h : addKeys t v = .ok t') : Reads t [.key (splitKeys v)] t' := by
  rw [addKeys] at h
  cases hk : t.addKeyColumns (splitKeys v) with
  | error what =>
    rw [hk] at h
    cases h
  | ok u =>
    rw [hk] at h
    cases he : u.evaluate with
    | error what =>
      simp only [bind, Except.bind, he] at h
      cases h
    | ok w =>
      simp only [bind, Except.bind, he] at h
      cases h
      exact .key hk he .done

theorem setTable_reads {s s' : Section} {text k v rest : Bytes} (ht : setting text = some (k, v, rest))
    (h : config.setTable s k v = .ok s') : Reads s.table (lineOf text).toList s'.table := by
  rw [lineOf, ht]
  rw [setTable] at h
  split_ifs at h with hname hcolumn hkey
  · rw [nameTable] at h
    split_ifs at h
    cases h
    subst hname
    exact .of_same rfl rfl rfl
  · obtain ⟨t, hadd, rfl⟩ := bind_pure_ok h
    subst hcolumn
    exact addColumn_reads hadd
  · obtain ⟨t, hadd, rfl⟩ := bind_pure_ok h
    subst hkey
    exact addKeys_reads hadd
  · cases h
    simp only [Option.bind_some, if_neg hcolumn, if_neg hkey, Option.toList_none]
    rw [addAttribute]
    split
    · exact .of_same rfl rfl rfl
    · exact .of_same rfl rfl rfl

theorem setGlobal_tables {k v : Bytes} (h : config.setGlobal k v = .ok config') : config'.tables = config.tables := by
  simp only [setGlobal] at h
  cases hv : stol v with
  | none =>
    rw [hv] at h
    split_ifs at h
    all_goals cases h
    rfl
  | some n =>
    rw [hv] at h
    split_ifs at h
    all_goals
      cases h
      rfl

theorem loadLine_reads {line : Bytes} (hline : ¬bytes "[table]" <:+: uncommented line)
    (h : config.loadLine line = .ok config') : config'.tables = config.tables ∧
      List.Forall₂ (fun s s' : Section => Reads s.table (lineOf (uncommented line)).toList s'.table)
        config.current.toList config'.current.toList := by
  rw [loadLine_eq, loadText, if_neg hline] at h
  cases hset : setting (uncommented line) with
  | none =>
    rw [hset] at h
    cases h
    refine ⟨rfl, List.forall₂_same.mpr fun s _ => ?_⟩
    rw [lineOf, hset]
    exact .done
  | some r =>
    obtain ⟨k, v, rest⟩ := r
    rw [hset] at h
    have h : config.setAttribute k v = .ok config' := h
    rw [setAttribute] at h
    cases hcurrent : config.current with
    | none =>
      rw [hcurrent] at h
      refine ⟨setGlobal_tables h, ?_⟩
      rw [setGlobal_current h, hcurrent]
      exact .nil
    | some s =>
      rw [hcurrent] at h
      obtain ⟨s', hs', rfl⟩ := bind_pure_ok h
      exact ⟨rfl, .cons (setTable_reads hset hs') .nil⟩

theorem forall₂_append {ls ls' : List TableLine} {ss ss' ss'' : List Section}
    (h : List.Forall₂ (fun s s' : Section => Reads s.table ls s'.table) ss ss')
    (h' : List.Forall₂ (fun s s' : Section => Reads s.table ls' s'.table) ss' ss'') :
    List.Forall₂ (fun s s' : Section => Reads s.table (ls ++ ls') s'.table) ss ss'' := by
  induction h generalizing ss'' with
  | nil =>
    cases h'
    exact .nil
  | cons hs _ ih =>
    cases h' with
    | cons hs' hrest => exact .cons (hs.append hs') (ih hrest)

/-- However many lines are read, the table that was open has read those in front of the next table, and
every table behind it has read its own. -/
theorem loadLines_reads {lines : List Bytes} (h : lines.foldlM loadLine config = .ok config') :
    ∃ opened ss, config'.tables ++ config'.current.toList = config.tables ++ opened ++ ss ∧
      List.Forall₂ (fun s s' : Section => Reads s.table (splitTables lines).1 s'.table) config.current.toList opened ∧
      List.Forall₂ (fun (s : Section) ls => Reads {} ls s.table) ss (tableLines lines) := by
  induction lines generalizing config with
  | nil =>
    cases h
    exact ⟨config'.current.toList, [], by simp, List.forall₂_same.mpr fun _ _ => .done, .nil⟩
  | cons line lines ih =>
    rw [List.foldlM_cons] at h
    cases hone : config.loadLine line with
    | error e =>
      rw [hone] at h
      cases h
    | ok mid =>
      rw [hone] at h
      obtain ⟨opened, ss, htables, hopened, hss⟩ := ih h
      rw [tableLines, splitTables]
      by_cases hline : bytes "[table]" <:+: uncommented line
      · rw [loadLine_eq, loadText, if_pos hline] at hone
        cases hone
        simp only [if_pos hline]
        refine ⟨config.current.toList, opened ++ ss, ?_, List.forall₂_same.mpr fun _ _ => .done, ?_⟩
        · rw [htables]
          simp [startTable]
        · cases hopened with
          | cons hs hnil =>
            cases hnil
            exact .cons hs hss
      · obtain ⟨hsame, hcurrent⟩ := loadLine_reads hline hone
        simp only [if_neg hline]
        refine ⟨opened, ss, by rw [htables, hsame], ?_, hss⟩
        exact forall₂_append hcurrent hopened

/-- Of what is accepted, a table is partitioned exactly where its lines number its columns: each has a name of
its own, and either the first key line behind it names it, once, and no other does, or there is one key line
behind it and that does not name it. -/
theorem load_partitioned_iff (config : MetaConfigLoader) (lines : List Bytes) (hload : config.load (some lines) = .ok config') :
    List.Forall₂ (fun s ls => s.table.Partitioned ↔ TableLine.Numbered ls)
      (config'.tables ++ config'.current.toList) (tableLines lines) := by
  obtain ⟨opened, ss, htables, hopened, hss⟩ := loadLines_reads hload
  cases hopened
  rw [htables]
  refine hss.imp fun s ls hr => ?_
  rw [(points_empty.reads hr).partitioned_iff, ← hr.numbered_iff points_empty (by simp [TableInfo.columnNames])
    (by simp [TableInfo.columnNames])]
  simp

def lateColumn : List Bytes :=
  ["[table]", "name=t", "path=p", "column=a:int32", "key=a", "column=b:int32"].map bytes

theorem lateColumn_partitioned_iff : ∃ config, load {} (some lateColumn) = .ok config ∧
    List.Forall₂ (fun s ls => s.table.Partitioned ↔ TableLine.Numbered ls)
      (config.tables ++ config.current.toList) (tableLines lateColumn) := by
  have hload : (load {} (some lateColumn)).toOption.isSome = true := by decide +kernel
  cases hok : load {} (some lateColumn) with
  | error e =>
    rw [hok] at hload
    cases hload
  | ok config => exact ⟨config, rfl, load_partitioned_iff {} lateColumn hok⟩

/-- The key list of every table, and the indexes of its columns. -/
def indexes (config : MetaConfigLoader) : List (List Nat × List (Option Nat × Option Nat)) :=
  (config.tables ++ config.current.toList).map fun s =>
    (s.table.keys, s.table.columns.map fun c => (c.keyIndex, c.valueIndex))

theorem lateColumn_not_partitioned : ∃ config, load {} (some lateColumn) = .ok config ∧
    ∃ s ∈ config.tables ++ config.current.toList, s.table.keys ≠ [] ∧ ¬s.table.Partitioned := by
  have hload : (load {} (some lateColumn)).toOption.map indexes = some [([0], [(some 0, none), (none, none)])] := by
    decide +kernel
  cases hok : load {} (some lateColumn) with
  | error e =>
    rw [hok] at hload
    cases hload
  | ok config =>
    rw [hok] at hload
    obtain ⟨s, hs, hindexes⟩ := List.map_eq_singleton_iff.mp (Option.some.inj hload)
    rw [Prod.mk.injEq] at hindexes
    refine ⟨config, rfl, s, by rw [hs]; exact List.mem_singleton_self s, by rw [hindexes.1]; simp, fun hp => ?_⟩
    have hlate : s.table.columns[1]?.map (fun c => (c.keyIndex, c.valueIndex)) = some (none, none) := by
      rw [← List.getElem?_map, hindexes.2]
      rfl
    obtain ⟨c, hc, hnone⟩ := Option.map_eq_some_iff.mp hlate
    rw [Prod.mk.injEq] at hnone
    obtain ⟨⟨k, hk, -⟩, -⟩ | ⟨⟨v, hv, -⟩, -⟩ := hp.column 1 c hc
    · rw [hnone.1] at hk
      cases hk
    · rw [hnone.2] at hv
      cases hv

end Load

end MetaConfigLoader

end LevelPgServer
