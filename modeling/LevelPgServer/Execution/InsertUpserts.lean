import LevelPgServer.Execution.KeyTypeOrder

namespace LevelPgServer.LevelDBInsertPlan

open DBDataTypeHandler DataRow KeyOrder ExceptRules KeyTypeOrder

variable {conv : Conversions} {t : TableInfo}

/-- A value that a column of the type admits, and no NaN. -/
def Plain (type : DBDataType) (v : ExecutionResult) : Prop :=
  hasType (getHandler type) v = true ∧ v ≠ .maxString ∧ ∀ d, v = .double d → d.isNaN = false

/-- A value that a column of the type admits, perhaps rounded, and no NaN. -/
def Fits (type : DBDataType) (v : ExecutionResult) : Prop :=
  accepts (getHandler type) v = true ∧ ∀ d, v = .double d → d.isNaN = false

theorem Plain.fits {type : DBDataType} {v : ExecutionResult} (h : Plain type v) : Fits type v :=
  ⟨(hasType_iff.mp ⟨h.1, h.2.1⟩).1, h.2.2⟩

theorem Plain.unrounded {type : DBDataType} {v : ExecutionResult} (h : Plain type v) :
    unrounded (getHandler type) v = true :=
  (hasType_iff.mp ⟨h.1, h.2.1⟩).2

theorem plain_zeroOf (type : DBDataType) : Plain type (zeroOf (getHandler type)) := by
  refine ⟨(zeroOf_admitted _).1, (zeroOf_admitted _).2, fun d hd => ?_⟩
  cases hg : getHandler type <;> rw [hg] at hd <;> cases hd
  decide

theorem plain_oneOf (type : DBDataType) : Plain type (oneOf (getHandler type)) := by
  refine ⟨(oneOf_admitted _).1, (oneOf_admitted _).2, fun d hd => ?_⟩
  cases hg : getHandler type <;> rw [hg] at hd <;> cases hd
  decide

theorem plain_zeros (types : List DBDataType) : List.Forall₂ Plain types (zeros types) := by
  induction types with
  | nil => exact .nil
  | cons type types ih => exact .cons (plain_zeroOf type) ih

theorem forall₂_getD {P : DBDataType → ExecutionResult → Prop} {types : List DBDataType} {vs : List ExecutionResult}
    (h : List.Forall₂ P types vs) {k : Nat} {type : DBDataType} (hk : types[k]? = some type) :
    P type (vs.getD k .null) := by
  obtain ⟨hlt, rfl⟩ := List.getElem?_eq_some_iff.mp hk
  have hlt' : k < vs.length := h.length_eq ▸ hlt
  rw [List.getD_eq_getElem?_getD, List.getElem?_eq_getElem hlt', Option.getD_some]
  exact (List.forall₂_iff_get.mp h).2 k hlt hlt'

section RowOf

def rowFrom (t : TableInfo) (ks vs : List ExecutionResult) : List ExecutionResult :=
  t.columns.map (fun c =>
    match c.keyIndex, c.valueIndex with
    | some k, _ => ks.getD k .null
    | none, some v => vs.getD v .null
    | none, none => .null)

variable {ks vs : List ExecutionResult}

theorem getD_rowFrom {i : Nat} {c : DBColumnInfo} (hc : t.columns[i]? = some c) : (rowFrom t ks vs).getD i .null =
    match c.keyIndex, c.valueIndex with
    | some k, _ => ks.getD k .null
    | none, some v => vs.getD v .null
    | none, none => .null := by
  rw [List.getD_eq_getElem?_getD, rowFrom, List.getElem?_map, hc]
  rfl

theorem keyRow_rowFrom (hv : t.Valid) (hlen : ks.length = t.keys.length) : t.keyRow (rowFrom t ks vs) = ks := by
  refine List.ext_getElem (by rw [TableInfo.keyRow, List.length_map, hlen]) fun k h1 h2 => ?_
  have hkey : k < t.keys.length := hlen ▸ h2
  have hc := List.getElem?_eq_getElem (hv.keys_lt _ (List.getElem_mem hkey))
  have hidx := (hv.keyIndex _ _ hc k).mpr (List.getElem?_eq_getElem hkey)
  simp only [TableInfo.keyRow, List.getElem_map]
  rw [getD_rowFrom hc, hidx]
  simp [h2]

theorem valueRow_rowFrom (hv : t.Valid) (hlen : vs.length = t.values.length) : t.valueRow (rowFrom t ks vs) = vs := by
  refine List.ext_getElem (by rw [TableInfo.valueRow, List.length_map, hlen]) fun v h1 h2 => ?_
  have hval : v < t.values.length := hlen ▸ h2
  have hc := List.getElem?_eq_getElem (hv.values_lt _ (List.getElem_mem hval))
  have hidx := (hv.valueIndex _ _ hc v).mpr (List.getElem?_eq_getElem hval)
  have hnone := (hv.isValue _ _ hc).mpr (by rw [hidx]; exact Option.some_ne_none v)
  simp only [TableInfo.valueRow, List.getElem_map]
  rw [getD_rowFrom hc, hnone, hidx]
  simp [h2]

theorem forall₂_rowFrom {P : DBDataType → ExecutionResult → Prop} (hv : t.Valid) (hk : List.Forall₂ P t.keyTypes ks)
    (hval : List.Forall₂ P t.valueTypes vs) : List.Forall₂ (fun c v => P c.type v) t.columns (rowFrom t ks vs) := by
  refine List.forall₂_iff_get.mpr ⟨by simp [rowFrom], fun i h1 h2 => ?_⟩
  have hc := List.getElem?_eq_getElem h1
  have hget : (rowFrom t ks vs).get ⟨i, h2⟩ = (rowFrom t ks vs).getD i .null := by simp [h2]
  rw [hget, getD_rowFrom hc, List.get_eq_getElem]
  cases hkey : (t.columns[i]).keyIndex with
  | some k =>
    have htype := hv.getElem?_keyTypes k
    rw [TableInfo.getKeyColumn, (hv.keyIndex i _ hc k).mp hkey, Option.bind_some, TableInfo.getColumn, hc] at htype
    exact forall₂_getD hk htype
  | none =>
    obtain ⟨v, hval'⟩ := Option.ne_none_iff_exists'.mp ((hv.isValue i _ hc).mp hkey)
    have htype := hv.getElem?_valueTypes v
    rw [TableInfo.getValueColumn, (hv.valueIndex i _ hc v).mp hval', Option.bind_some, TableInfo.getColumn, hc] at htype
    rw [hval']
    exact forall₂_getD hval htype

theorem accepted_rowFrom (hv : t.Valid) (hk : List.Forall₂ Fits t.keyTypes ks)
    (hval : List.Forall₂ Fits t.valueTypes vs) :
    Accepted t (rowFrom t ks vs) where
  types := (forall₂_rowFrom hv hk hval).imp fun _ _ h => h.1
  noNaN := by
    intro d hd
    rw [keyRow_rowFrom hv (by rw [← hk.length_eq, hv.length_keyTypes])] at hd
    obtain ⟨k, hlt, hget⟩ := List.mem_iff_getElem.mp hd
    exact ((List.forall₂_iff_get.mp hk).2 k (hk.length_eq ▸ hlt) hlt).2 d hget

theorem floatsReadBack_rowFrom (hv : t.Valid) (hk : List.Forall₂ Plain t.keyTypes ks)
    (hval : List.Forall₂ Plain t.valueTypes vs) : FloatsReadBack t (rowFrom t ks vs) :=
  (forall₂_rowFrom hv hk hval).imp fun _ _ h => h.unrounded

end RowOf

section LongString

def NoInnerString (types : List DBDataType) : Prop := ∀ type ∈ types.dropLast, getHandler type ≠ .string

theorem sizeReadsBack_of_accepts {h : DBDataTypeHandler} {v : ExecutionResult} (ht : accepts h v = true)
    (hne : h ≠ .string) :
    sizeReadsBack v = true := by
  cases h with
  | string => exact absurd rfl hne
  | _ => cases v <;> first | rfl | cases ht

theorem sizeReadsBack_of_hasType {h : DBDataTypeHandler} {v : ExecutionResult} (ht : hasType h v = true)
    (hne : h ≠ .string) :
    sizeReadsBack v = true := by
  cases h with
  | string => exact absurd rfl hne
  | int u => cases v <;> first | rfl | cases ht
  | float u => cases u <;> cases v <;> first | rfl | cases ht

theorem readable_of_noInnerString {types : List DBDataType} (h : NoInnerString types) {vs : List ExecutionResult}
    (ht : List.Forall₂ (fun type v => getHandler type ≠ .string → sizeReadsBack v = true) types vs) : Readable vs := by
  intro v hv
  obtain ⟨k, hk⟩ := List.mem_iff_getElem?.mp hv
  obtain ⟨hlt, rfl⟩ := List.getElem?_eq_some_iff.mp hk
  have hlen := ht.length_eq
  rw [List.length_dropLast] at hlt
  have hlt' : k < types.dropLast.length := by rw [List.length_dropLast]; omega
  have hsize := (List.forall₂_iff_get.mp ht).2 k (by omega) (by omega)
  have hne := h _ (List.getElem_mem hlt')
  rw [List.getElem_dropLast] at hne ⊢
  exact hsize hne

def nonZero : DBDataTypeHandler → ExecutionResult
  | .string => .string [1]
  | h => oneOf h

theorem plain_nonZero (type : DBDataType) : Plain type (nonZero (getHandler type)) := by
  have hone := plain_oneOf type
  unfold Plain at hone ⊢
  cases hg : getHandler type with
  | string => exact ⟨rfl, by simp [nonZero], by simp [nonZero]⟩
  | _ => rw [hg] at hone; exact hone

theorem write_nonZero (h : DBDataTypeHandler) : ∃ bs, h.write conv (nonZero h) = .ok bs := by
  cases h with
  | string => exact ⟨_, rfl⟩
  | int t => exact ⟨_, write_oneOf (.int t)⟩
  | float t => exact ⟨_, write_oneOf (.float t)⟩

theorem zeroOf_ne_nonZero (h : DBDataTypeHandler) : zeroOf h ≠ nonZero h := by
  cases h with
  | int t => exact fun he => absurd (ExecutionResult.int.inj he) (by decide)
  | float t => exact fun he => absurd (ExecutionResult.double.inj he) (by decide)
  | string => exact fun he => absurd (ExecutionResult.string.inj he) (by decide)

theorem compare_zero_nonZero (h : DBDataTypeHandler) : h.compare conv (zeroOf h) (nonZero h) = .ok .lt := by
  cases h with
  | int u => rfl
  | float u =>
    have hlt : compareDouble (Double.ofInt 0) (Double.ofInt 1) = .lt := by decide +kernel
    simp [DBDataTypeHandler.compare, zeroOf, nonZero, oneOf, hlt]
  | string => rfl

theorem read_zeros (h : DBDataTypeHandler) {n : Nat} (hn : width h ≤ n) (rest : Bytes) :
    h.read (List.replicate n 0 ++ rest) = .ok (zeroOf h) := by
  obtain ⟨m, rfl⟩ := Nat.exists_eq_add_of_le hn
  rw [List.replicate_add, List.append_assoc]
  exact (write_spec decimalConversions (zeroOf_admitted h).1 (write_zeroOf h) _).1

theorem width_le (h : DBDataTypeHandler) : width h ≤ 65533 := by
  cases h with
  | int t => cases t <;> decide
  | float t => cases t <;> decide
  | string => decide

/-- A string of zeros whose size is read back as that of the empty one. -/
def longZeros : Bytes := List.replicate 65533 0

theorem length_longZeros : longZeros.length = 65533 := List.length_replicate

theorem write_longZeros :
    DBDataTypeHandler.string.write conv (.string longZeros) = .ok (ByteOrder.toLittle 2 65533 ++ longZeros) := by
  rw [DBDataTypeHandler.write]
  simp only [ExecutionResult.isMaxString_string, Bool.false_eq_true, if_false,
    ExecutionResult.getString_string, ok_bind,
    length_longZeros]
  rfl

/-- The string column of a schema that is not the last one, between the columns around it. -/
theorem exists_inner_string {types : List DBDataType} (h : ¬ NoInnerString types) :
    ∃ U y z S, types = U ++ y :: z :: S ∧ getHandler y = .string := by
  obtain ⟨y, hy, hstr⟩ : ∃ y ∈ types.dropLast, getHandler y = .string := by simpa [NoInnerString] using h
  obtain ⟨U, R, hUR⟩ := List.append_of_mem hy
  have hne : types ≠ [] := by
    rintro rfl
    exact List.not_mem_nil hy
  obtain ⟨z, S, hzS⟩ := List.exists_cons_of_ne_nil (l := R ++ [types.getLast hne]) (by simp)
  refine ⟨U, y, z, S, ?_, hstr⟩
  rw [← hzS, ← List.cons_append, ← List.append_assoc, ← hUR, List.dropLast_append_getLast]

/-- Zeros, but for the long string and the column behind it. -/
def longRow (U : List DBDataType) (z : DBDataType) (S : List DBDataType) : List ExecutionResult :=
  zeros U ++ .string longZeros :: nonZero (getHandler z) :: zeros S

theorem plain_longRow (U S : List DBDataType) {y z : DBDataType} (hstr : getHandler y = .string) :
    List.Forall₂ Plain (U ++ y :: z :: S) (longRow U z S) :=
  List.rel_append (plain_zeros U) (.cons ⟨by rw [hstr]; rfl, by simp, by simp⟩
    (.cons (plain_nonZero z) (plain_zeros S)))

/-- Behind the string of zeros that is taken for the shortest one, zeros are read. -/
theorem getResult_behind_long (U S : List DBDataType) {y z : DBDataType} (hstr : getHandler y = .string) :
    ∃ ds, columnBytes conv (U ++ y :: z :: S) (longRow U z S) = .ok ds ∧
      ((∀ (j : Nat) (u : DBDataType), U[j]? = some u →
          getResult (U ++ y :: z :: S) ds.flatten j = .ok (zeroOf (getHandler u))) →
        getResult (U ++ y :: z :: S) ds.flatten (U.length + 1) = .ok (zeroOf (getHandler z))) := by
  obtain ⟨cs, hcs, -⟩ := @columnBytes_zeros conv S
  obtain ⟨bs, hbs⟩ := @write_nonZero conv (getHandler z)
  have hlong : (getHandler y).write conv (.string longZeros) = .ok (ByteOrder.toLittle 2 65533 ++ longZeros) := by
    rw [hstr, write_longZeros]
  obtain ⟨ds, hds, hflat⟩ := columnBytes_zeros_append U (columnBytes_cons_ok hlong (columnBytes_cons_ok hbs hcs))
  refine ⟨ds, hds, fun hzeros => ?_⟩
  rw [getResult_behind_zeros U (y :: z :: S) ds.flatten hzeros 1, hflat, List.drop_left' (by simp)]
  rw [getResult, hstr, List.flatten_cons]
  have hsize : DBDataTypeHandler.string.getSizeAt
      ((ByteOrder.toLittle 2 65533 ++ longZeros) ++ (bs :: cs).flatten) = .ok 2 := by
    rw [List.append_assoc, getSizeAt, if_neg (by simp; omega), List.take_left' (by simp)]
    rfl
  rw [hsize, ok_bind, List.append_assoc, List.drop_left' (by simp), longZeros]
  exact read_zeros _ (width_le _) _

theorem misread_string {types : List DBDataType} (h : ¬ NoInnerString types) : ∃ vs bs, copyRow conv types vs = .ok bs ∧
    List.Forall₂ Plain types vs ∧ ¬ ∀ (k : Nat) (v : ExecutionResult), vs[k]? = some v →
      getResult types bs k = .ok v := by
  obtain ⟨U, y, z, S, rfl, hstr⟩ := exists_inner_string h
  obtain ⟨ds, hds, hbehind⟩ := @getResult_behind_long conv U S y z hstr
  have hplain := @plain_longRow U S y z hstr
  refine ⟨_, _, (copyRow_eq_ok conv (hplain.imp fun _ _ h => h.1)).mpr ⟨ds, hds, rfl⟩, hplain, fun hread => ?_⟩
  have hlen : (zeros U).length = U.length := by simp [zeros]
  have hz := hread (U.length + 1) (nonZero (getHandler z)) (by
    rw [longRow, ← hlen, List.getElem?_append_right (by omega), Nat.add_sub_cancel_left]
    rfl)
  rw [hbehind] at hz
  · exact zeroOf_ne_nonZero _ (Except.ok.inj hz)
  · intro j u hj
    have hlt : j < U.length := (List.getElem?_eq_some_iff.mp hj).1
    refine hread j _ ?_
    rw [longRow, List.getElem?_append_left (by rw [hlen]; exact hlt), zeros, List.getElem?_map, hj]
    rfl

end LongString

section RoundedFloat

def NoFloat (t : TableInfo) : Prop := ∀ c ∈ t.columns, getHandler c.type ≠ .float .float

theorem floatsReadBack_of_noFloat (h : NoFloat t) {row : List ExecutionResult} (ha : Accepted t row) :
    FloatsReadBack t row := by
  have htypes := ha.types
  rw [FloatsReadBack]
  rw [List.forall₂_iff_get] at htypes ⊢
  refine ⟨htypes.1, fun i h1 h2 => ?_⟩
  have hne := h _ (List.getElem_mem h1)
  rw [List.get_eq_getElem]
  generalize getHandler (t.columns[i]).type = g at hne
  cases g with
  | float u =>
    cases u with
    | float => exact absurd rfl hne
    | double => cases row.get ⟨i, h2⟩ <;> rfl
  | _ => cases row.get ⟨i, h2⟩ <;> rfl

def tenth : Double := ⟨0x3fb999999999999a#64⟩

def roundedTenth : Double := ⟨0x3fb99999a0000000#64⟩

theorem write_tenth (d : Double) (h : d = tenth ∨ d = roundedTenth) :
    (DBDataTypeHandler.float .float).write conv (.double d) = .ok [0xcd, 0xcc, 0xcc, 0x3d] := by
  obtain rfl | rfl := h
  · exact (write_float (by rw [FloatType.checkValue, if_neg]; decide)).trans (by decide +kernel)
  · exact (write_float (by rw [FloatType.checkValue, if_neg]; decide)).trans (by decide +kernel)

/-- Two values of one column that are stored alike are stored alike in a row. -/
theorem copyRow_congr_value {U S : List DBDataType} {y : DBDataType} {v v' : ExecutionResult}
    {us ws : List ExecutionResult}
    (hlen : us.length = U.length) (hw : (getHandler y).write conv v = (getHandler y).write conv v')
    (hs : (getHandler y).getSize conv v = (getHandler y).getSize conv v') :
    copyRow conv (U ++ y :: S) (us ++ v :: ws) = copyRow conv (U ++ y :: S) (us ++ v' :: ws) := by
  have hboth : computeSize conv (U ++ y :: S) (us ++ v :: ws) = computeSize conv (U ++ y :: S) (us ++ v' :: ws) ∧
      ∀ buf off, copyFrom conv (U ++ y :: S) (us ++ v :: ws) buf off =
        copyFrom conv (U ++ y :: S) (us ++ v' :: ws) buf off := by
    induction U generalizing us with
    | nil =>
      obtain rfl := List.length_eq_zero_iff.mp hlen
      simp only [List.nil_append, computeSize, copyFrom, hw, hs, implies_true, and_self]
    | cons u U ih =>
      cases us with
      | nil => cases hlen
      | cons w us =>
        obtain ⟨hsize, hcopy⟩ := ih (show us.length = U.length by simpa using hlen)
        simp only [List.cons_append, computeSize, copyFrom, hsize, hcopy, implies_true, and_self]
  rw [copyRow, copyRow, hboth.1]
  exact bind_congr fun n => by rw [copy, copy, hboth.2]

/-- A row of zeros with a number in the column behind those of `U`. -/
def floatRow (U S : List DBDataType) (d : Double) : List ExecutionResult := zeros U ++ .double d :: zeros S

theorem plain_floatRow (U S : List DBDataType) {y : DBDataType} (hy : getHandler y = .float .float) :
    List.Forall₂ Plain (U ++ y :: S) (floatRow U S roundedTenth) := by
  refine List.rel_append (plain_zeros U) (.cons ⟨?_, by simp, fun d hd => ?_⟩ (plain_zeros S))
  · rw [hy]
    decide +kernel
  · cases hd
    decide

theorem fits_floatRow (U S : List DBDataType) {y : DBDataType} (hy : getHandler y = .float .float) :
    List.Forall₂ Fits (U ++ y :: S) (floatRow U S tenth) := by
  refine List.rel_append ((plain_zeros U).imp fun _ _ h => h.fits) (.cons ⟨?_, fun d hd => ?_⟩
    ((plain_zeros S).imp fun _ _ h => h.fits))
  · rw [hy]
    rfl
  · cases hd
    decide

theorem sizeReadsBack_zeros {types : List DBDataType} : ∀ v ∈ zeros types, sizeReadsBack v = true := by
  intro v hv
  obtain ⟨type, -, rfl⟩ := List.mem_map.mp hv
  cases getHandler type <;> rfl

theorem sizeReadsBack_floatRow (U S : List DBDataType) (d : Double) : ∀ v ∈ floatRow U S d, sizeReadsBack v = true := by
  intro v hv
  rcases List.mem_append.mp hv with hv | hv
  · exact sizeReadsBack_zeros v hv
  · rcases List.mem_cons.mp hv with rfl | hv
    · rfl
    · exact sizeReadsBack_zeros v hv

theorem misread_float {types : List DBDataType} (h : ∃ y ∈ types, getHandler y = .float .float) :
    ∃ vs bs, copyRow conv types vs = .ok bs ∧ List.Forall₂ Fits types vs ∧ (∀ v ∈ vs, sizeReadsBack v = true) ∧
      ¬ ∀ (k : Nat) (v : ExecutionResult), vs[k]? = some v → getResult types bs k = .ok v := by
  obtain ⟨y, hmem, hy⟩ := h
  obtain ⟨U, S, rfl⟩ := List.append_of_mem hmem
  have hlen : (zeros U).length = U.length := by simp [zeros]
  have hat : ∀ d, (floatRow U S d)[U.length]? = some (.double d) := by
    intro d
    rw [floatRow, ← hlen, List.getElem?_append_right le_rfl]
    simp
  obtain ⟨cs, hcs, -⟩ := @columnBytes_zeros conv S
  have hwrite : (getHandler y).write conv (.double roundedTenth) = .ok [0xcd, 0xcc, 0xcc, 0x3d] := by
    rw [hy]
    exact write_tenth _ (.inr rfl)
  obtain ⟨ds, hds, -⟩ := columnBytes_zeros_append U (columnBytes_cons_ok hwrite hcs)
  have htypes : HasTypes (U ++ y :: S) (floatRow U S roundedTenth) := (plain_floatRow U S hy).imp fun _ _ h => h.1
  have hstored := (copyRow_eq_ok conv htypes).mpr ⟨ds, hds, rfl⟩
  have hsame : copyRow conv (U ++ y :: S) (floatRow U S tenth) =
    copyRow conv (U ++ y :: S) (floatRow U S roundedTenth) := by
    refine copyRow_congr_value hlen ?_ ?_
    · rw [hwrite, hy]
      exact write_tenth _ (.inl rfl)
    · rw [hy]
      rfl
  refine ⟨floatRow U S tenth, _, hsame.trans hstored, fits_floatRow U S hy, sizeReadsBack_floatRow U S _,
    fun hread => ?_⟩
  have hback := getResult_eq conv htypes hds [] U.length
    (fun v hv => sizeReadsBack_floatRow U S _ v (List.mem_of_mem_take hv)) _ (hat roundedTenth)
  rw [List.append_nil, hread _ _ (hat tenth)] at hback
  exact absurd (ExecutionResult.double.inj (Except.ok.inj hback)) (by decide)

end RoundedFloat

section Runs

/-- Every successful insert of rows with the property, whose values the column types admit, upserts them. -/
def Upserts (conv : Conversions) (t : TableInfo) (P : List ExecutionResult → Prop) : Prop :=
  ∀ (db : LevelDB) (rows : List (List ExecutionResult)) (n : Nat) (f : Option Fault) (r : LevelDB × Nat),
    Store conv t db → (∀ row ∈ rows, Accepted t row ∧ P row) → (create t).run conv n ⟨rows, f⟩ db = .ok r →
      Upserted conv t rows db r.1

theorem Upserts.mono {P Q : List ExecutionResult → Prop} (h : Upserts conv t P)
    (hpq : ∀ row, Accepted t row → Q row → P row) :
    Upserts conv t Q :=
  fun db rows n f r hs hrows hrun => h db rows n f r hs (fun row hm =>
    ⟨(hrows row hm).1, hpq row (hrows row hm).1 (hrows row hm).2⟩) hrun

theorem accepts_keyRow (hv : t.Valid) {row : List ExecutionResult} (h : Accepted t row) :
    List.Forall₂ (fun U v => accepts (getHandler U) v = true) t.keyTypes (t.keyRow row) := by
  rw [TableInfo.keyTypes, List.forall₂_map_left_iff]
  exact TableInfo.forall₂_places h.types hv.keys_lt

theorem accepts_valueRow (hv : t.Valid) {row : List ExecutionResult} (h : Accepted t row) :
    List.Forall₂ (fun U v => accepts (getHandler U) v = true) t.valueTypes (t.valueRow row) := by
  rw [TableInfo.valueTypes, List.forall₂_map_left_iff]
  exact TableInfo.forall₂_places h.types hv.values_lt

/-- A row that is read from an entry has its key columns and its other columns there. -/
theorem getResult_of_readRow (hv : t.Valid) {row : List ExecutionResult} {e : Entry}
    (h : LevelDBScanPlan.readRow t e = .ok row) :
    (∀ (k : Nat) (v : ExecutionResult), (t.keyRow row)[k]? = some v → getResult t.keyTypes e.1 k = .ok v) ∧
      ∀ (k : Nat) (v : ExecutionResult), (t.valueRow row)[k]? = some v → getResult t.valueTypes e.2 k = .ok v := by
  rw [LevelDBScanPlan.readRow_eq hv] at h
  have hall := forall₂_of_mapM_ok h
  have hcolumn : ∀ (i : Nat) (c : DBColumnInfo), t.columns[i]? = some c → t.columnOf e c = .ok (row.getD i .null) := by
    intro i c hc
    obtain ⟨hlt, rfl⟩ := List.getElem?_eq_some_iff.mp hc
    have hlt' : i < row.length := hall.length_eq ▸ hlt
    rw [List.getD_eq_getElem?_getD, List.getElem?_eq_getElem hlt', Option.getD_some]
    exact (List.forall₂_iff_get.mp hall).2 i hlt hlt'
  constructor
  · intro k v hk
    rw [TableInfo.keyRow, List.getElem?_map, Option.map_eq_some_iff] at hk
    obtain ⟨i, hi, rfl⟩ := hk
    have hc := List.getElem?_eq_getElem (hv.keys_lt i (List.mem_of_getElem? hi))
    rw [← hcolumn i _ hc, TableInfo.columnOf, (hv.keyIndex i _ hc k).mpr hi]
  · intro k v hk
    rw [TableInfo.valueRow, List.getElem?_map, Option.map_eq_some_iff] at hk
    obtain ⟨i, hi, rfl⟩ := hk
    have hc := List.getElem?_eq_getElem (hv.values_lt i (List.mem_of_getElem? hi))
    have hval := (hv.valueIndex i _ hc k).mpr hi
    have hnone := (hv.isValue i _ hc).mpr (by rw [hval]; exact Option.some_ne_none k)
    rw [← hcolumn i _ hc, TableInfo.columnOf, hnone, hval]

theorem run_row (hv : t.Valid) {row : List ExecutionResult} (hlen : row.length = t.columns.length) {key value : Bytes}
    (hk : copyRow conv (create t).keyTypes (t.keyRow row) = .ok key)
    (hval : copyRow conv (create t).valueTypes (t.valueRow row) = .ok value) :
    (create t).run conv t.getColumnCount ⟨[row], none⟩ [] = .ok ([(key, value)], 1) := by
  have hentry : (create t).entryOf conv row = .ok (key, value) := by
    rw [entryOf, show (create t).table = t from rfl, hk, ok_bind, hval]
    rfl
  rw [run, show (create t).table = t from rfl, if_neg (not_not.mpr rfl), nextAll,
    next_eq hv hlen (by simp [initial, length_keyTypes hv])
      (by simp [initial, valueTypes_eq hv, hv.length_valueTypes]), hentry]
  rfl

/-- After an upsert into an empty table the row is read from its entry. -/
theorem readRow_of_upserted {row : List ExecutionResult} {e : Entry} (h : Upserted conv t [row] [] [e]) :
    LevelDBScanPlan.readRow t e = .ok row := by
  obtain ⟨old, new, -, hnew, -, hmem⟩ := h
  have hlast : t.lastWith [row] (KeyOrder.ranks (t.keyRow row)) = some row := by
    rw [TableInfo.lastWith_cons, if_pos rfl]
    rfl
  have hrow := (hmem row).mpr (.inl hlast)
  rw [LevelDBScanPlan.scanTable] at hnew
  split at hnew
  · cases hnew
  · next es hrun =>
    obtain ⟨i, hi⟩ := List.mem_iff_getElem?.mp hrow
    obtain ⟨hlt, rfl⟩ := List.getElem?_eq_some_iff.mp hi
    have hall := forall₂_of_mapM_ok hnew
    have hlt' : i < es.length := hall.length_eq.symm ▸ hlt
    have hsub : es ⊆ [e] := by
      have := @LevelDBScanPlan.run_rows_subset conv (LevelDBScanPlan.allColumns t) [e]
      rwa [hrun] at this
    have he : es[i] = e := List.mem_singleton.mp (hsub (List.getElem_mem hlt'))
    rw [← he]
    exact (List.forall₂_iff_get.mp hall).2 i hlt' hlt

theorem not_upserts (hv : t.Valid) {P : List ExecutionResult → Prop} {ks vs : List ExecutionResult} {key value : Bytes}
    (hk : copyRow conv (create t).keyTypes ks = .ok key) (hval : copyRow conv t.valueTypes vs = .ok value)
    (hks : List.Forall₂ Fits t.keyTypes ks) (hvs : List.Forall₂ Fits t.valueTypes vs) (hp : P (rowFrom t ks vs))
    (hread : ¬ ((∀ (k : Nat) (v : ExecutionResult), ks[k]? = some v → getResult t.keyTypes key k = .ok v) ∧
      ∀ (k : Nat) (v : ExecutionResult), vs[k]? = some v → getResult t.valueTypes value k = .ok v)) :
    ¬ Upserts conv t P := by
  intro hup
  have hkrow : t.keyRow (rowFrom t ks vs) = ks := keyRow_rowFrom hv (by rw [← hks.length_eq, hv.length_keyTypes])
  have hvrow : t.valueRow (rowFrom t ks vs) = vs := valueRow_rowFrom hv (by rw [← hvs.length_eq, hv.length_valueTypes])
  have hadm := accepted_rowFrom hv hks hvs
  have hrun := @run_row conv t hv _ (accepted_length hadm) key value (by rw [hkrow]; exact hk)
    (by rw [hvrow, valueTypes_eq hv]; exact hval)
  have hstore : Store conv t [] := ⟨.nil, by simp, by simp⟩
  have hback := getResult_of_readRow hv (readRow_of_upserted (hup _ _ _ _ _ hstore (by
    intro row hm
    obtain rfl := List.mem_singleton.mp hm
    exact ⟨hadm, hp⟩) hrun))
  rw [hkrow, hvrow] at hback
  exact hread hback

theorem sizesReadBack_rowFrom (hv : t.Valid) {ks vs : List ExecutionResult} (hks : List.Forall₂ Fits t.keyTypes ks)
    (hvs : List.Forall₂ Fits t.valueTypes vs) (hk : ∀ v ∈ ks, sizeReadsBack v = true)
    (hval : ∀ v ∈ vs, sizeReadsBack v = true) :
    SizesReadBack t (rowFrom t ks vs) := by
  constructor
  · rw [keyRow_rowFrom hv (by rw [← hks.length_eq, hv.length_keyTypes])]
    exact fun v hm => hk v (List.mem_of_mem_dropLast hm)
  · rw [valueRow_rowFrom hv (by rw [← hvs.length_eq, hv.length_valueTypes])]
    exact fun v hm => hval v (List.mem_of_mem_dropLast hm)

theorem perm_keyTypes (hv : t.Valid) : (create t).keyTypes.Perm t.keyTypes := hv.keyColumns_perm.map _

/-- Without key types that agree only tables without rows can be inserted into. -/
theorem rows_nil_of_clash (hv : t.Valid) (hc : KeyTypesClash t) {rows : List (List ExecutionResult)}
    (hrows : ∀ row ∈ rows, Accepted t row) {n : Nat} {f : Option Fault} {db : LevelDB} {r : LevelDB × Nat}
    (h : (create t).run conv n ⟨rows, f⟩ db = .ok r) : rows = [] := by
  obtain ⟨es, -, hes⟩ := run_ok hv (fun row hm => accepted_length (hrows row hm)) h
  cases hes with
  | nil => rfl
  | @cons row e rows es he _ =>
    obtain ⟨key, hk, -⟩ := bind_eq_ok.mp he
    obtain ⟨k, T, U, hT, hU, hkind⟩ := hc
    have hsame := sameKinds_of_copyRow hk (accepts_keyRow hv (hrows row (by simp))) (perm_keyTypes hv)
    obtain ⟨h1, rfl⟩ := List.getElem?_eq_some_iff.mp hT
    obtain ⟨h2, rfl⟩ := List.getElem?_eq_some_iff.mp hU
    exact absurd ((List.forall₂_iff_get.mp hsame).2 k h1 h2)
      (by rw [List.get_eq_getElem, List.get_eq_getElem, hkind]; decide)

theorem sameKinds_of_not_clash (hv : t.Valid) (h : ¬ KeyTypesClash t) :
    List.Forall₂ (fun T U => sameKind (getHandler T) (getHandler U) = true) (create t).keyTypes t.keyTypes := by
  refine List.forall₂_iff_get.mpr ⟨(perm_keyTypes hv).length_eq, fun k h1 h2 => ?_⟩
  by_contra hkind
  exact h ⟨k, _, _, List.getElem?_eq_getElem h1, List.getElem?_eq_getElem h2, by simpa using hkind⟩

theorem widths_perm {T U : List DBDataType} (h : T.Perm U) : widths T = widths U := (h.map _).sum_eq

theorem upserts_of_agree (hv : t.Valid) (ha : KeyTypesAgree t) :
    Upserts conv t (fun row => SizesReadBack t row ∧ FloatsReadBack t row) :=
  fun _ _ _ _ _ hs hrows h =>
    (run_upserts hv ha hs (fun row hm => ⟨admitted_of_accepted (hrows row hm).1 (hrows row hm).2.2,
      (hrows row hm).2.1⟩) h).2

theorem upserts_of_clash (hv : t.Valid) (hc : KeyTypesClash t) (P : List ExecutionResult → Prop) :
    Upserts conv t P := by
  intro db rows n f r hs hrows h
  obtain rfl := rows_nil_of_clash hv hc (fun row hm => (hrows row hm).1) h
  obtain ⟨es, hr, hes⟩ := run_ok hv (by simp) h
  cases hes
  rw [hr]
  exact (commit_upserts hv hs .nil).2

/-- Key types of the same kinds that do not agree lose a row of zeros and a one. -/
theorem agree_of_upserts (hv : t.Valid) (hc : ¬ KeyTypesClash t)
    (h : Upserts conv t (fun row => SizesReadBack t row ∧ FloatsReadBack t row)) : KeyTypesAgree t := by
  by_contra hne
  obtain ⟨ks, key, hk, hks, hread⟩ :=
    @misread_row conv _ _ (sameKinds_of_not_clash hv hc) hne (widths_perm (perm_keyTypes hv))
  obtain ⟨cs, hcs, -⟩ := @columnBytes_zeros conv t.valueTypes
  have hval := (copyRow_eq_ok conv ((plain_zeros t.valueTypes).imp fun _ _ h => h.1)).mpr ⟨cs, hcs, rfl⟩
  have hplain : List.Forall₂ Plain t.keyTypes ks := hks.imp fun U v h => by
    rcases h with rfl | rfl
    · exact plain_zeroOf U
    · exact plain_oneOf U
  have hsizes : ∀ v ∈ ks, sizeReadsBack v = true := by
    intro v hv
    obtain ⟨k, hlt, rfl⟩ := List.mem_iff_getElem.mp hv
    have hone := (List.forall₂_iff_get.mp hks).2 k (hks.length_eq ▸ hlt) hlt
    rcases hone with hone | hone <;> rw [List.get_eq_getElem] at hone <;> rw [hone] <;> cases getHandler _ <;> rfl
  have hfits := hplain.imp fun _ _ h => h.fits
  have hzeros := plain_zeros t.valueTypes
  have hvs := hzeros.imp fun _ _ h => h.fits
  exact not_upserts hv hk hval hfits hvs
    ⟨sizesReadBack_rowFrom hv hfits hvs hsizes sizeReadsBack_zeros, floatsReadBack_rowFrom hv hplain hzeros⟩
    (fun hback => hread hback.1) h

/-- A table with a string column before the last key column or before the last value column
loses the row with the string whose size is read back as another. -/
theorem noInnerString_of_upserts (hv : t.Valid) (ha : KeyTypesAgree t) (h : Upserts conv t (FloatsReadBack t)) :
    NoInnerString t.keyTypes ∧ NoInnerString t.valueTypes := by
  have hzeros : ∀ types : List DBDataType, ∃ bs, copyRow conv types (zeros types) = .ok bs := by
    intro types
    obtain ⟨cs, hcs, -⟩ := @columnBytes_zeros conv types
    exact ⟨_, (copyRow_eq_ok conv ((plain_zeros types).imp fun _ _ h => h.1)).mpr ⟨cs, hcs, rfl⟩⟩
  constructor
  · by_contra hinner
    obtain ⟨ks, key, hk, hplain, hread⟩ := @misread_string conv _ hinner
    obtain ⟨value, hval⟩ := hzeros t.valueTypes
    have hvs := plain_zeros t.valueTypes
    exact not_upserts hv ((copyRow_congr conv ha ks).trans hk) hval (hplain.imp fun _ _ h => h.fits)
      (hvs.imp fun _ _ h => h.fits) (floatsReadBack_rowFrom hv hplain hvs) (fun hback => hread hback.1) h
  · by_contra hinner
    obtain ⟨vs, value, hval, hplain, hread⟩ := @misread_string conv _ hinner
    obtain ⟨key, hk⟩ := hzeros t.keyTypes
    have hks := plain_zeros t.keyTypes
    exact not_upserts hv ((copyRow_congr conv ha _).trans hk) hval (hks.imp fun _ _ h => h.fits)
      (hplain.imp fun _ _ h => h.fits) (floatsReadBack_rowFrom hv hks hplain) (fun hback => hread hback.2) h

/-- A table with a single-precision column loses the row with a number that is rounded there. -/
theorem noFloat_of_upserts (hv : t.Valid) (ha : KeyTypesAgree t) (h : Upserts conv t (SizesReadBack t)) :
    NoFloat t := by
  have hzeros : ∀ types : List DBDataType, ∃ bs, copyRow conv types (zeros types) = .ok bs := by
    intro types
    obtain ⟨cs, hcs, -⟩ := @columnBytes_zeros conv types
    exact ⟨_, (copyRow_eq_ok conv ((plain_zeros types).imp fun _ _ h => h.1)).mpr ⟨cs, hcs, rfl⟩⟩
  intro c hc hfloat
  obtain ⟨i, hi⟩ := List.mem_iff_getElem?.mp hc
  cases hkey : c.keyIndex with
  | some k =>
    have htype := hv.getElem?_keyTypes k
    rw [TableInfo.getKeyColumn, (hv.keyIndex i _ hi k).mp hkey, Option.bind_some, TableInfo.getColumn, hi] at htype
    obtain ⟨ks, key, hk, hks, hsizes, hread⟩ := @misread_float conv _ ⟨_, List.mem_of_getElem? htype, hfloat⟩
    obtain ⟨value, hval⟩ := hzeros t.valueTypes
    have hvs := (plain_zeros t.valueTypes).imp fun _ _ h => h.fits
    exact not_upserts hv ((copyRow_congr conv ha ks).trans hk) hval hks hvs
      (sizesReadBack_rowFrom hv hks hvs hsizes sizeReadsBack_zeros) (fun hback => hread hback.1) h
  | none =>
    obtain ⟨v, hval'⟩ := Option.ne_none_iff_exists'.mp ((hv.isValue i _ hi).mp hkey)
    have htype := hv.getElem?_valueTypes v
    rw [TableInfo.getValueColumn, (hv.valueIndex i _ hi v).mp hval', Option.bind_some, TableInfo.getColumn, hi] at htype
    obtain ⟨vs, value, hval, hvs, hsizes, hread⟩ := @misread_float conv _ ⟨_, List.mem_of_getElem? htype, hfloat⟩
    obtain ⟨key, hk⟩ := hzeros t.keyTypes
    have hks := (plain_zeros t.keyTypes).imp fun _ _ h => h.fits
    exact not_upserts hv ((copyRow_congr conv ha _).trans hk) hval hks hvs
      (sizesReadBack_rowFrom hv hks hvs sizeReadsBack_zeros hsizes) (fun hback => hread hback.2) h

theorem sizesReadBack_of_noInnerString (hv : t.Valid) (hk : NoInnerString t.keyTypes)
    (hval : NoInnerString t.valueTypes)
    {row : List ExecutionResult} (h : Accepted t row) : SizesReadBack t row :=
  ⟨readable_of_noInnerString hk ((accepts_keyRow hv h).imp fun _ _ => sizeReadsBack_of_accepts),
    readable_of_noInnerString hval ((accepts_valueRow hv h).imp fun _ _ => sizeReadsBack_of_accepts)⟩

/-- Rows of some kind are upserted where the key types agree and, as the table asks `C`, they are read back. -/
theorem upserts_iff_of (hv : t.Valid) {P : List ExecutionResult → Prop} {C : Prop}
    (hp : ∀ row, SizesReadBack t row ∧ FloatsReadBack t row → P row)
    (hc : C → ∀ row, Accepted t row → P row → SizesReadBack t row ∧ FloatsReadBack t row)
    (hneeds : KeyTypesAgree t → Upserts conv t P → C) : Upserts conv t P ↔ KeyTypesAgree t ∧ C ∨ KeyTypesClash t := by
  constructor
  · intro h
    by_cases hclash : KeyTypesClash t
    · exact .inr hclash
    · have ha := agree_of_upserts hv hclash (h.mono fun row _ => hp row)
      exact .inl ⟨ha, hneeds ha h⟩
  · rintro (⟨ha, hC⟩ | hclash)
    · exact (upserts_of_agree hv ha).mono (hc hC)
    · exact upserts_of_clash hv hclash P

end Runs

/-- Two integer columns of different sizes, with the key the other way round. -/
def swappedTable : TableInfo where
  name := bytes "t"
  columns := [{ name := bytes "a", type := .int16, index := 0, keyIndex := some 1 },
    { name := bytes "b", type := .int32, index := 1, keyIndex := some 0 }]
  keys := [1, 0]
  attr := [(bytes "path", bytes "p")]

theorem swappedTable_valid : swappedTable.Valid :=
  @TableInfo.define_valid (bytes "t") (bytes "p") [⟨bytes "a", .int16, 0⟩, ⟨bytes "b", .int32, 0⟩]
    [bytes "b", bytes "a"] _ rfl (by decide) (by decide)

/-- `f float` and `key=f`. -/
def floatTable : TableInfo where
  name := bytes "t"
  columns := [{ name := bytes "f", type := .float, index := 0, keyIndex := some 0 }]
  keys := [0]
  attr := [(bytes "path", bytes "p")]

/-- Two rows with different keys become one. -/
example : ∃ db', (create floatTable).run decimalConversions 1 ⟨[[.double roundedTenth], [.double tenth]], none⟩ [] =
    .ok (db', 2) ∧
    LevelDBScanPlan.scanTable decimalConversions floatTable db' = .ok [[.double roundedTenth]] :=
  ⟨[([0xcd, 0xcc, 0xcc, 0x3d], [])], rfl, rfl⟩

end LevelPgServer.LevelDBInsertPlan
