import LevelPgServer.Common.ParseNode

namespace LevelPgServer

/-- The column types a table can have; `UNKNOWN`, which no column keeps, is an absent type. -/
inductive DBDataType
  | int16 | int32 | int64 | string | datetime | date | float | double | bytes | bool
  deriving DecidableEq, Repr

structure DBColumnInfo where
  name : Bytes
  type : DBDataType
  len : Nat := 0
  index : Nat := 0
  keyIndex : Option Nat := none
  valueIndex : Option Nat := none
  deriving DecidableEq, Repr

/-- `m_keys` and `m_values` point into `m_columns`; here they hold positions in it. -/
structure TableInfo where
  name : Bytes := []
  columns : List DBColumnInfo := []
  keys : List Nat := []
  values : List Nat := []
  attr : List (Bytes × Bytes) := []
  deriving Repr

namespace TableInfo

def configError {α : Type} (what : String) : Except String α := .error what

def addColumn (t : TableInfo) (name : Bytes) (type : DBDataType) (len : Nat) : TableInfo :=
  { t with columns := t.columns ++ [{ name, type, len, index := t.columns.length }] }

/-- `m_columnMap`: a name stands for the last column that was given it. -/
def findColumn (t : TableInfo) (name : Bytes) : Option Nat :=
  (List.range t.columns.length).findRev? (fun i => (t.columns[i]?.map DBColumnInfo.name) == some name)

def setKeyIndex (columns : List DBColumnInfo) (i k : Nat) : List DBColumnInfo :=
  columns.modify i (fun c => { c with keyIndex := some k })

def addKeyColumn (t : TableInfo) (name : Bytes) : Except String TableInfo :=
  match t.findColumn name with
  | some i => .ok { t with columns := setKeyIndex t.columns i t.keys.length, keys := t.keys ++ [i] }
  | none => configError ("Undefined key column '" ++ text name ++ "'")

def addKeyColumns (t : TableInfo) : List Bytes → Except String TableInfo
  | [] => .ok t
  | name :: names => do
    let t' ← t.addKeyColumn name
    t'.addKeyColumns names

/-- The loop of `evaluate` from column `i` on, when `v` value columns are known. -/
def assignValues (i v : Nat) : List DBColumnInfo → List DBColumnInfo × List Nat
  | [] => ([], [])
  | c :: cs =>
    match c.keyIndex with
    | some _ => (c :: (assignValues (i + 1) v cs).1, (assignValues (i + 1) v cs).2)
    | none =>
      ({ c with valueIndex := some v } :: (assignValues (i + 1) (v + 1) cs).1,
        i :: (assignValues (i + 1) (v + 1) cs).2)

def getAttribute (t : TableInfo) (key defValue : Bytes) : Bytes := (t.attr.lookup key).getD defValue

def evaluate (t : TableInfo) : Except String TableInfo :=
  let r := assignValues 0 t.values.length t.columns
  if t.getAttribute (bytes "path") [] = [] then
    configError s!"Table {text t.name} does not define path attribute before keys"
  else .ok { t with columns := r.1, values := t.values ++ r.2 }

structure ColumnLine where
  name : Bytes
  type : DBDataType
  len : Nat

def addColumns (t : TableInfo) (lines : List ColumnLine) : TableInfo :=
  lines.foldl (fun t c => t.addColumn c.name c.type c.len) t

/-- A table section of the configuration: its columns and then its key line. -/
def define (name path : Bytes) (lines : List ColumnLine) (keys : List Bytes) : Except String TableInfo := do
  let t : TableInfo := { name, attr := [(bytes "path", path)] }
  let t ← (t.addColumns lines).addKeyColumns keys
  t.evaluate

def getColumnCount (t : TableInfo) : Nat := t.columns.length

def getKeyCount (t : TableInfo) : Nat := t.keys.length

def getColumn (t : TableInfo) (i : Nat) : Option DBColumnInfo := t.columns[i]?

def getKeyColumn (t : TableInfo) (k : Nat) : Option DBColumnInfo := t.keys[k]?.bind t.getColumn

def getValueColumn (t : TableInfo) (v : Nat) : Option DBColumnInfo := t.values[v]?.bind t.getColumn

def getColumnByName (t : TableInfo) (name : Bytes) : Option DBColumnInfo := (t.findColumn name).bind t.getColumn

/-- Every column is the key column or the value column its index says, and no other. -/
structure Valid (t : TableInfo) : Prop where
  keys_ne_nil : t.keys ≠ []
  keyIndex : ∀ (i : Nat) (c : DBColumnInfo), t.columns[i]? = some c → ∀ k, c.keyIndex = some k ↔ t.keys[k]? = some i
  valueIndex : ∀ (i : Nat) (c : DBColumnInfo), t.columns[i]? = some c → ∀ v, c.valueIndex = some v ↔ t.values[v]? = some i
  isValue : ∀ (i : Nat) (c : DBColumnInfo), t.columns[i]? = some c → (c.keyIndex = none ↔ c.valueIndex ≠ none)
  keys_lt : ∀ i ∈ t.keys, i < t.columns.length
  values_lt : ∀ i ∈ t.values, i < t.columns.length
  values_sorted : t.values.Pairwise (· < ·)
  index : ∀ (i : Nat) (c : DBColumnInfo), t.columns[i]? = some c → c.index = i

end TableInfo

structure Table extends TableInfo where
  valid : toTableInfo.Valid

namespace TableInfo

theorem getElem?_setKeyIndex (columns : List DBColumnInfo) (i k j : Nat) :
    (setKeyIndex columns i k)[j]? =
      if j = i then columns[j]?.map (fun c => { c with keyIndex := some k }) else columns[j]? := by
  rw [setKeyIndex, List.getElem?_modify]
  by_cases h : i = j
  · simp [h]
  · simp [h, Ne.symm h]

/-- What holds of a table whose columns and key columns are read and whose value
columns are not. -/
structure Keyed (t : TableInfo) : Prop where
  keyIndex : ∀ (i : Nat) (c : DBColumnInfo), t.columns[i]? = some c → ∀ k, c.keyIndex = some k ↔ t.keys[k]? = some i
  valueIndex : ∀ (i : Nat) (c : DBColumnInfo), t.columns[i]? = some c → c.valueIndex = none
  keys_lt : ∀ i ∈ t.keys, i < t.columns.length
  values : t.values = []
  index : ∀ (i : Nat) (c : DBColumnInfo), t.columns[i]? = some c → c.index = i

theorem Keyed.addColumn {t : TableInfo} (h : t.Keyed) (hk : t.keys = []) (name : Bytes) (type : DBDataType)
    (len : Nat) : (t.addColumn name type len).Keyed where
  keyIndex i c hc k := by
    simp only [TableInfo.addColumn] at hc ⊢
    rcases Nat.lt_or_ge i t.columns.length with hi | hi
    · rw [List.getElem?_append_left hi] at hc
      exact h.keyIndex i c hc k
    · rw [List.getElem?_append_right hi, List.getElem?_singleton] at hc
      split at hc
      · cases hc
        simp [hk]
      · cases hc
  valueIndex i c hc := by
    simp only [TableInfo.addColumn] at hc
    rcases Nat.lt_or_ge i t.columns.length with hi | hi
    · rw [List.getElem?_append_left hi] at hc
      exact h.valueIndex i c hc
    · rw [List.getElem?_append_right hi, List.getElem?_singleton] at hc
      split at hc
      · cases hc
        rfl
      · cases hc
  keys_lt := by simp [TableInfo.addColumn, hk]
  values := h.values
  index i c hc := by
    simp only [TableInfo.addColumn] at hc
    rcases Nat.lt_or_ge i t.columns.length with hi | hi
    · rw [List.getElem?_append_left hi] at hc
      exact h.index i c hc
    · rw [List.getElem?_append_right hi, List.getElem?_singleton] at hc
      split at hc
      · cases hc
        simp only
        omega
      · cases hc

theorem Keyed.addColumns {t : TableInfo} (h : t.Keyed) (hk : t.keys = []) (lines : List ColumnLine) :
    (t.addColumns lines).Keyed ∧ (t.addColumns lines).keys = [] := by
  induction lines generalizing t with
  | nil => exact ⟨h, hk⟩
  | cons c cs ih => exact ih (h.addColumn hk c.name c.type c.len) hk

theorem findColumn_lt {t : TableInfo} {name : Bytes} {i : Nat} (h : t.findColumn name = some i) :
    i < t.columns.length := by
  rw [findColumn, List.findRev?_eq_find?_reverse] at h
  have hm := List.mem_of_find?_eq_some h
  simpa using hm

theorem Keyed.addKeyColumn {t t' : TableInfo} (h : t.Keyed) {name : Bytes} (he : t.addKeyColumn name = .ok t')
    (hn : t'.keys.Nodup) : t'.Keyed := by
  unfold TableInfo.addKeyColumn at he
  split at he
  · next i hi =>
    cases he
    have hlt := findColumn_lt hi
    have hnew : i ∉ t.keys := by
      intro hm
      exact (List.nodup_append.mp hn).2.2 i hm i (by simp) rfl
    refine ⟨fun j c hc k => ?_, fun j c hc => ?_, fun j hj => ?_, h.values, fun j c hc => ?_⟩
    · simp only [getElem?_setKeyIndex] at hc ⊢
      by_cases hj : j = i
      · subst hj
        rw [if_pos rfl, Option.map_eq_some_iff] at hc
        obtain ⟨c', hc', rfl⟩ := hc
        rcases Nat.lt_trichotomy k t.keys.length with hk | hk | hk
        · have hne : t.keys[k]? ≠ some j := fun hs => hnew (List.mem_of_getElem? hs)
          rw [List.getElem?_append_left hk]
          simp only [hne, iff_false, Option.some.injEq]
          omega
        · simp [hk]
        · have hnone : (t.keys ++ [j])[k]? = none := by simp; omega
          rw [hnone]
          simp only [Option.some.injEq, reduceCtorEq, iff_false]
          omega
      · rw [if_neg hj] at hc
        rw [h.keyIndex j c hc k]
        rcases Nat.lt_or_ge k t.keys.length with hk | hk
        · rw [List.getElem?_append_left hk]
        · rw [List.getElem?_append_right hk, List.getElem?_eq_none hk, List.getElem?_singleton]
          split <;> simp [Ne.symm hj]
    · simp only [getElem?_setKeyIndex] at hc
      split at hc
      · rw [Option.map_eq_some_iff] at hc
        obtain ⟨c', hc', rfl⟩ := hc
        exact h.valueIndex j c' hc'
      · exact h.valueIndex j c hc
    · have hlen : (setKeyIndex t.columns i t.keys.length).length = t.columns.length := by simp [setKeyIndex]
      simp only [hlen]
      rcases List.mem_append.mp hj with hj | hj
      · exact h.keys_lt j hj
      · rw [List.mem_singleton.mp hj]
        exact hlt
    · simp only [getElem?_setKeyIndex] at hc
      split at hc
      · rw [Option.map_eq_some_iff] at hc
        obtain ⟨c', hc', rfl⟩ := hc
        exact h.index j c' hc'
      · exact h.index j c hc
  · cases he

theorem addKeyColumns_keys {t t' : TableInfo} {names : List Bytes} (he : t.addKeyColumns names = .ok t') :
    ∃ is, t'.keys = t.keys ++ is ∧ is.length = names.length := by
  induction names generalizing t with
  | nil =>
    cases he
    exact ⟨[], by simp⟩
  | cons name names ih =>
    unfold addKeyColumns TableInfo.addKeyColumn at he
    split at he
    · next i hi =>
      obtain ⟨is, his, hlen⟩ := ih he
      exact ⟨i :: is, by simpa using his, by simp [hlen]⟩
    · cases he

theorem Keyed.addKeyColumns {t t' : TableInfo} (h : t.Keyed) {names : List Bytes}
    (he : t.addKeyColumns names = .ok t') (hn : t'.keys.Nodup) : t'.Keyed := by
  induction names generalizing t with
  | nil =>
    cases he
    exact h
  | cons name names ih =>
    rw [TableInfo.addKeyColumns] at he
    cases hk : t.addKeyColumn name with
    | error e => rw [hk] at he; cases he
    | ok u =>
      rw [hk] at he
      obtain ⟨is, his, -⟩ := addKeyColumns_keys he
      rw [his] at hn
      exact ih (h.addKeyColumn hk hn.of_append_left) he

theorem length_assignValues (i v : Nat) (cs : List DBColumnInfo) : (assignValues i v cs).1.length = cs.length := by
  induction cs generalizing i v with
  | nil => rfl
  | cons c cs ih =>
    rw [assignValues]
    split <;> simp [ih]

/-- Each column keeps its key index, and each one without gets its place among the values. -/
theorem getElem?_assignValues (i v : Nat) (cs : List DBColumnInfo) (j : Nat) (c : DBColumnInfo)
    (h : (assignValues i v cs).1[j]? = some c) :
    ∃ b, cs[j]? = some b ∧ c.keyIndex = b.keyIndex ∧ c.index = b.index ∧
      (b.keyIndex ≠ none → c.valueIndex = b.valueIndex) ∧
        (b.keyIndex = none → ∃ w, c.valueIndex = some (v + w) ∧ (assignValues i v cs).2[w]? = some (i + j)) := by
  induction cs generalizing i v j with
  | nil => simp [assignValues] at h
  | cons a cs ih =>
    rw [assignValues] at h ⊢
    split at h
    · next k hk =>
      cases j with
      | zero =>
        cases h
        exact ⟨_, rfl, rfl, rfl, fun _ => rfl, fun hn => by rw [hk] at hn; cases hn⟩
      | succ j =>
        obtain ⟨b, hb, hkey, hidx, hsome, hnone⟩ := ih (i + 1) v j h
        refine ⟨b, hb, hkey, hidx, hsome, fun hn => ?_⟩
        obtain ⟨w, hw, hv⟩ := hnone hn
        exact ⟨w, hw, by rw [hv, Nat.add_right_comm, Nat.add_assoc]⟩
    · next hk =>
      cases j with
      | zero =>
        cases h
        exact ⟨a, rfl, rfl, rfl, fun hn => absurd hk hn, fun _ => ⟨0, rfl, rfl⟩⟩
      | succ j =>
        obtain ⟨b, hb, hkey, hidx, hsome, hnone⟩ := ih (i + 1) (v + 1) j h
        refine ⟨b, hb, hkey, hidx, hsome, fun hn => ?_⟩
        obtain ⟨w, hw, hv⟩ := hnone hn
        refine ⟨w + 1, by rw [hw, Nat.add_right_comm, Nat.add_assoc], ?_⟩
        rw [List.getElem?_cons_succ, hv, Nat.add_right_comm, Nat.add_assoc]

theorem getElem?_assignValues_values (i v : Nat) (cs : List DBColumnInfo) (w x : Nat)
    (h : (assignValues i v cs).2[w]? = some x) :
    ∃ j c, x = i + j ∧ (assignValues i v cs).1[j]? = some c ∧ c.valueIndex = some (v + w) := by
  induction cs generalizing i v w with
  | nil => simp [assignValues] at h
  | cons a cs ih =>
    rw [assignValues] at h ⊢
    split at h
    · obtain ⟨j, c, hx, hc, hv⟩ := ih (i + 1) v w h
      exact ⟨j + 1, c, by omega, hc, hv⟩
    · cases w with
      | zero =>
        cases h
        exact ⟨0, _, rfl, rfl, rfl⟩
      | succ w =>
        obtain ⟨j, c, hx, hc, hv⟩ := ih (i + 1) (v + 1) w h
        exact ⟨j + 1, c, by omega, hc, by rw [hv, Nat.add_right_comm, Nat.add_assoc]⟩

theorem sorted_assignValues (i v : Nat) (cs : List DBColumnInfo) :
    (∀ x ∈ (assignValues i v cs).2, i ≤ x) ∧ (assignValues i v cs).2.Pairwise (· < ·) := by
  induction cs generalizing i v with
  | nil => simp [assignValues]
  | cons c cs ih =>
    rw [assignValues]
    split
    · obtain ⟨hle, hs⟩ := ih (i + 1) v
      exact ⟨fun x hx => (Nat.le_succ i).trans (hle x hx), hs⟩
    · obtain ⟨hle, hs⟩ := ih (i + 1) (v + 1)
      refine ⟨fun x hx => ?_, List.pairwise_cons.mpr ⟨fun x hx => hle x hx, hs⟩⟩
      rcases List.mem_cons.mp hx with rfl | hx
      · exact le_rfl
      · exact (Nat.le_succ i).trans (hle x hx)

theorem Keyed.evaluate {t t' : TableInfo} (h : t.Keyed) (hk : t.keys ≠ []) (he : t.evaluate = .ok t') :
    t'.Valid := by
  simp only [TableInfo.evaluate, h.values, List.length_nil, List.nil_append] at he
  split at he
  · cases he
  cases he
  have hcol := getElem?_assignValues 0 0 t.columns
  have hval := getElem?_assignValues_values 0 0 t.columns
  simp only [Nat.zero_add] at hcol hval
  have hnone : ∀ (i : Nat) (c : DBColumnInfo), (assignValues 0 0 t.columns).1[i]? = some c →
      (c.keyIndex = none ↔ c.valueIndex ≠ none) := by
    intro i c hc
    obtain ⟨b, hb, hkey, -, hs, hn⟩ := hcol i c hc
    rw [hkey]
    by_cases hbn : b.keyIndex = none
    · obtain ⟨w, hw, -⟩ := hn hbn
      simp [hbn, hw]
    · simp [hbn, hs hbn, h.valueIndex i b hb]
  refine ⟨hk, fun i c hc k => ?_, fun i c hc v => ⟨fun hv => ?_, fun hv => ?_⟩, hnone, fun i hi => ?_,
    fun i hi => ?_, (sorted_assignValues 0 0 t.columns).2, fun i c hc => ?_⟩
  · obtain ⟨b, hb, hkey, -⟩ := hcol i c hc
    rw [hkey]
    exact h.keyIndex i b hb k
  · have hkn := (hnone i c hc).mpr (by rw [hv]; simp)
    obtain ⟨b, hb, hkey, -, -, hn⟩ := hcol i c hc
    obtain ⟨w, hw, hvw⟩ := hn (hkey ▸ hkn)
    obtain rfl : v = w := by simpa [hv] using hw
    exact hvw
  · obtain ⟨j, d, rfl, hd, hdv⟩ := hval v i hv
    obtain rfl : d = c := by simpa [hd] using hc
    exact hdv
  · rw [length_assignValues]
    exact h.keys_lt i hi
  · obtain ⟨v, hv⟩ := List.mem_iff_getElem?.mp hi
    obtain ⟨j, d, rfl, hd, -⟩ := hval v i hv
    exact (List.getElem?_eq_some_iff.mp hd).1
  · obtain ⟨b, hb, -, hidx, -⟩ := hcol i c hc
    rw [hidx]
    exact h.index i b hb

/-- Every table the configuration accepts is valid when its key line names distinct
columns and at least one. -/
theorem define_valid {name path : Bytes} {lines : List ColumnLine} {keys : List Bytes} {t : TableInfo}
    (h : define name path lines keys = .ok t) (hkeys : keys ≠ []) (hn : t.keys.Nodup) : t.Valid := by
  have h0 : Keyed { name, attr := [(bytes "path", path)] } :=
    ⟨by simp, by simp, by simp, rfl, by simp⟩
  obtain ⟨hc, hck⟩ := h0.addColumns rfl lines
  unfold define at h
  simp only [bind, Except.bind] at h
  cases ha : (({ name, attr := [(bytes "path", path)] } : TableInfo).addColumns lines).addKeyColumns keys with
  | error e => rw [ha] at h; cases h
  | ok u =>
    rw [ha] at h
    replace h : u.evaluate = .ok t := h
    have hu : t.keys = u.keys := by
      simp only [TableInfo.evaluate] at h
      split at h
      · cases h
      · cases h
        rfl
    rw [hu] at hn
    obtain ⟨is, his, hlen⟩ := addKeyColumns_keys ha
    have hne : u.keys ≠ [] := by
      rw [his, hck]
      intro he
      rw [List.nil_append] at he
      rw [he, List.length_nil] at hlen
      exact hkeys (List.length_eq_zero_iff.mp hlen.symm)
    exact (hc.addKeyColumns ha hn).evaluate hne h

theorem Valid.keys_nodup {t : TableInfo} (h : t.Valid) : t.keys.Nodup := by
  rw [List.nodup_iff_injective_getElem]
  intro ⟨k, hk⟩ ⟨k', hk'⟩ he
  simp only [Fin.mk.injEq]
  have hlt := h.keys_lt _ (List.getElem_mem hk)
  have hc := List.getElem?_eq_getElem hlt
  have h1 := (h.keyIndex _ _ hc k).mpr (List.getElem?_eq_getElem hk)
  have h2 := (h.keyIndex _ _ hc k').mpr (by rw [List.getElem?_eq_getElem hk']; exact congrArg some he.symm)
  rw [h1] at h2
  exact Option.some.inj h2

theorem Valid.values_nodup {t : TableInfo} (h : t.Valid) : t.values.Nodup := by
  rw [List.nodup_iff_injective_getElem]
  intro ⟨v, hv⟩ ⟨v', hv'⟩ he
  simp only [Fin.mk.injEq]
  have hlt := h.values_lt _ (List.getElem_mem hv)
  have hc := List.getElem?_eq_getElem hlt
  have h1 := (h.valueIndex _ _ hc v).mpr (List.getElem?_eq_getElem hv)
  have h2 := (h.valueIndex _ _ hc v').mpr (by rw [List.getElem?_eq_getElem hv']; exact congrArg some he.symm)
  rw [h1] at h2
  exact Option.some.inj h2

theorem Valid.mem_keys {t : TableInfo} (h : t.Valid) {i : Nat} {c : DBColumnInfo} (hc : t.columns[i]? = some c) :
    i ∈ t.keys ↔ c.keyIndex ≠ none := by
  rw [List.mem_iff_getElem?, Option.ne_none_iff_exists']
  exact exists_congr fun k => (h.keyIndex i c hc k).symm

theorem Valid.mem_values {t : TableInfo} (h : t.Valid) {i : Nat} {c : DBColumnInfo} (hc : t.columns[i]? = some c) :
    i ∈ t.values ↔ c.keyIndex = none := by
  rw [h.isValue i c hc, List.mem_iff_getElem?, Option.ne_none_iff_exists']
  exact exists_congr fun v => (h.valueIndex i c hc v).symm

theorem Valid.perm {t : TableInfo} (h : t.Valid) : (t.keys ++ t.values).Perm (List.range t.columns.length) := by
  have hdisj : ∀ i ∈ t.keys, i ∉ t.values := by
    intro i hk hv
    have hc := List.getElem?_eq_getElem (h.keys_lt i hk)
    exact (h.mem_keys hc).mp hk ((h.mem_values hc).mp hv)
  have hn : (t.keys ++ t.values).Nodup :=
    List.nodup_append.mpr ⟨h.keys_nodup, h.values_nodup, fun a ha b hb he => hdisj a ha (he ▸ hb)⟩
  refine (List.perm_ext_iff_of_nodup hn List.nodup_range).mpr fun i => ?_
  rw [List.mem_append, List.mem_range]
  constructor
  · rintro (hi | hi)
    · exact h.keys_lt i hi
    · exact h.values_lt i hi
  · intro hi
    have hc := List.getElem?_eq_getElem hi
    by_cases hk : (t.columns[i]).keyIndex = none
    · exact .inr ((h.mem_values hc).mpr hk)
    · exact .inl ((h.mem_keys hc).mpr hk)

theorem Valid.count {t : TableInfo} (h : t.Valid) : t.keys.length + t.values.length = t.columns.length := by
  simpa using h.perm.length_eq

theorem Valid.getKeyColumn {t : TableInfo} (h : t.Valid) {i k : Nat} {c : DBColumnInfo} (hc : t.columns[i]? = some c)
    (hk : c.keyIndex = some k) : t.getKeyColumn k = some c := by
  simp [TableInfo.getKeyColumn, (h.keyIndex i c hc k).mp hk, getColumn, hc]

theorem Valid.getValueColumn {t : TableInfo} (h : t.Valid) {i v : Nat} {c : DBColumnInfo}
    (hc : t.columns[i]? = some c) (hv : c.valueIndex = some v) : t.getValueColumn v = some c := by
  simp [TableInfo.getValueColumn, (h.valueIndex i c hc v).mp hv, getColumn, hc]

theorem Valid.keyIndex_lt {t : TableInfo} (h : t.Valid) {i k : Nat} {c : DBColumnInfo} (hc : t.columns[i]? = some c)
    (hk : c.keyIndex = some k) : k < t.keys.length :=
  (List.getElem?_eq_some_iff.mp ((h.keyIndex i c hc k).mp hk)).1

theorem Valid.valueIndex_lt {t : TableInfo} (h : t.Valid) {i v : Nat} {c : DBColumnInfo}
    (hc : t.columns[i]? = some c) (hv : c.valueIndex = some v) : v < t.values.length :=
  (List.getElem?_eq_some_iff.mp ((h.valueIndex i c hc v).mp hv)).1

theorem getColumnByName_mem {t : TableInfo} {name : Bytes} {c : DBColumnInfo}
    (h : t.getColumnByName name = some c) : ∃ i : Nat, t.columns[i]? = some c := by
  rw [getColumnByName, Option.bind_eq_some_iff] at h
  obtain ⟨i, -, hi⟩ := h
  exact ⟨i, hi⟩

theorem filterMap_range_filter (cs : List DBColumnInfo) (p : DBColumnInfo → Bool) :
    ((List.range cs.length).filter (fun i => (cs[i]?.map p).getD false)).filterMap (fun i => cs[i]?) = cs.filter p := by
  induction cs with
  | nil => rfl
  | cons c cs ih =>
    rw [List.length_cons, List.range_succ_eq_map, List.filter_cons, List.filter_cons, ← ih]
    cases hp : p c <;> simp [hp, List.filter_map, List.filterMap_map, Function.comp_def]

/-- The value columns are the columns without a key index, in the order of the columns. -/
theorem Valid.valueColumns {t : TableInfo} (h : t.Valid) :
    t.values.filterMap t.getColumn = t.columns.filter (fun c => c.keyIndex.isNone) := by
  have hvals : t.values = (List.range t.columns.length).filter
      (fun i => (t.columns[i]?.map (fun c => c.keyIndex.isNone)).getD false) := by
    refine List.Perm.eq_of_pairwise' h.values_sorted (List.pairwise_lt_range.filter _) ?_
    refine (List.perm_ext_iff_of_nodup h.values_nodup (List.nodup_range.filter _)).mpr fun i => ?_
    rw [List.mem_filter, List.mem_range]
    constructor
    · intro hi
      have hlt := h.values_lt i hi
      have hc := List.getElem?_eq_getElem hlt
      exact ⟨hlt, by simp [hc, (h.mem_values hc).mp hi]⟩
    · rintro ⟨hlt, hn⟩
      have hc := List.getElem?_eq_getElem hlt
      exact (h.mem_values hc).mpr (by simpa [hc] using hn)
  rw [hvals, ← filterMap_range_filter]
  rfl

/-- The key columns are the columns with a key index, in an order of their own. -/
theorem Valid.keyColumns_perm {t : TableInfo} (h : t.Valid) :
    (t.columns.filter (fun c => c.keyIndex.isSome)).Perm (t.keys.filterMap t.getColumn) := by
  rw [← filterMap_range_filter]
  refine List.Perm.filterMap t.getColumn ?_
  refine (List.perm_ext_iff_of_nodup (List.nodup_range.filter _) h.keys_nodup).mpr fun i => ?_
  rw [List.mem_filter, List.mem_range]
  constructor
  · rintro ⟨hlt, hs⟩
    have hc := List.getElem?_eq_getElem hlt
    exact (h.mem_keys hc).mpr (by simpa [hc, Option.isSome_iff_ne_none] using hs)
  · intro hi
    have hlt := h.keys_lt i hi
    have hc := List.getElem?_eq_getElem hlt
    exact ⟨hlt, by simpa [hc, Option.isSome_iff_ne_none] using (h.mem_keys hc).mp hi⟩

end TableInfo

end LevelPgServer
