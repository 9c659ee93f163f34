import LevelPgServer.Execution.InsertUpserts

namespace LevelPgServer

open DBDataTypeHandler DataRow KeyOrder KeyTypeOrder ExceptRules ThreeWay
open LevelDBInsertPlan (NoInnerString Plain plain_zeros plain_zeroOf plain_nonZero isOrdered_of_hasType longZeros nonZero)

/-- The value that is read from the bytes a value is stored as. -/
def DBDataTypeHandler.decoded (conv : Conversions) (h : DBDataTypeHandler) (v : ExecutionResult) :
    Fallible ExecutionResult := do
  let bs ← h.write conv v
  h.read bs

/-- A key that `copy` makes of values which pass the checks of their types. -/
structure StoredKey (conv : Conversions) (types : List DBDataType) where
  results : List ExecutionResult
  key : Bytes
  length : types.length = results.length
  noMax : .maxString ∉ results
  copied : copyRow conv types results = .ok key

namespace StoredKey

variable {conv : Conversions} {types : List DBDataType}

def decodedRow (conv : Conversions) : List DBDataType → List ExecutionResult → Fallible (List ExecutionResult)
  | t :: ts, v :: vs => do
    let w ← (getHandler t).decoded conv v
    let ws ← decodedRow conv ts vs
    return w :: ws
  | _, _ => .ok []

def decoded (k : StoredKey conv types) : List ExecutionResult :=
  match decodedRow conv types k.results with
  | .ok ws => ws
  | .error _ => []

def NaNFree (k : StoredKey conv types) : Prop := ∀ d, .double d ∈ k.decoded → d.isNaN = false

/-- `KeyComparator::Compare` is a total preorder on the keys, that of their decoded columns. -/
structure ComparesInOrder (keys : List (StoredKey conv types)) : Prop where
  preorder : TotalPreorder (fun a b => DataRow.compare conv types a.key b.key) keys
  lexicographic : ∀ a ∈ keys, ∀ b ∈ keys,
    DataRow.compare conv types a.key b.key = .ok (order (ranks a.decoded) (ranks b.decoded))

section Columns

/-- What is read back has a place in the order, or is a NaN. -/
def Placed (h : DBDataTypeHandler) (w : ExecutionResult) : Prop :=
  isOrdered h w = true ∨ ∃ t d, h = .float t ∧ w = .double d ∧ d.isNaN = true

theorem writeFloat_column (t : FloatType) (d : Double) :
    ∃ e, Column (.float t) (writeFloat t d) (.double e) ∧ Placed (.float t) (.double e) := by
  have hsize : ∀ rest, ∃ n, (DBDataTypeHandler.float t).getSizeAt (writeFloat t d ++ rest) = .ok n ∧
      (∀ e, sizeReadsBack (.double e) = true → n = (writeFloat t d).length) :=
    fun rest => ⟨t.size, rfl, fun _ _ => (length_writeFloat t d).symm⟩
  cases t with
  | double =>
    refine ⟨d, ⟨fun rest => read_float rfl rest, fun rest => ?_⟩, ?_⟩
    · obtain ⟨n, hn, h⟩ := hsize rest
      exact ⟨n, hn, h d⟩
    · cases hn : d.isNaN with
      | true => exact .inr ⟨.double, d, rfl, rfl, hn⟩
      | false => exact .inl (by simp [isOrdered, hasType, hn])
  | float =>
    have hread : ∀ rest, (DBDataTypeHandler.float .float).read (writeFloat .float d ++ rest) = .ok (.double d.narrow.widen) := by
      intro rest
      have hlen : (writeFloat .float d).length = FloatType.float.size := length_writeFloat .float d
      have hlt : d.narrow.bits.toNat < 256 ^ 4 := d.narrow.bits.isLt
      rw [DBDataTypeHandler.read, if_neg (by rw [List.length_append, hlen]; omega), List.take_left' hlen]
      simp only [readFloat, writeFloat]
      rw [ByteOrder.ofLittle_toLittle_of_lt hlt, BitVec.ofNat_toNat, BitVec.setWidth_eq]
    refine ⟨d.narrow.widen, ⟨hread, fun rest => ?_⟩, ?_⟩
    · obtain ⟨n, hn, h⟩ := hsize rest
      exact ⟨n, hn, h _⟩
    · cases hn : d.narrow.widen.isNaN with
      | true => exact .inr ⟨.float, _, rfl, rfl, hn⟩
      | false =>
        have hnarrow : d.narrow.isNaN = false := by rwa [Single.isNaN_widen_eq] at hn
        exact .inl (by simp [isOrdered, hasType, hn, Single.narrow_widen hnarrow])

theorem column_of_stored {h : DBDataTypeHandler} {v : ExecutionResult} {bs : Bytes} (hw : h.write conv v = .ok bs)
    (hmax : v ≠ .maxString) : h.getSize conv v = .ok bs.length ∧ ∃ w, Column h bs w ∧ Placed h w := by
  cases h with
  | int t =>
    obtain ⟨i, hi, hw'⟩ := bind_eq_ok.mp hw
    have hint : (DBDataTypeHandler.int t).write conv (.int i) = .ok bs := hw'
    exact ⟨(write_spec conv (v := .int i) rfl hint []).2.1, .int i, column_of_write conv rfl hint, .inl rfl⟩
  | float t =>
    obtain ⟨d, hd, hw'⟩ := bind_eq_ok.mp hw
    obtain ⟨rfl, -⟩ := write_float_spec conv (t := t) (d := d) hw'
    obtain ⟨e, he, hp⟩ := writeFloat_column t d
    exact ⟨by rw [length_writeFloat]; rfl, _, he, hp⟩
  | string =>
    cases v with
    | string s => exact ⟨(write_spec conv rfl hw []).2.1, .string s, column_of_write conv rfl hw, .inl rfl⟩
    | maxString => exact absurd rfl hmax
    | _ => cases hw

/-- The columns of a key: what its values are stored as and what is read from them. -/
theorem columns_of_copyFrom {vs : List ExecutionResult} (hlen : types.length = vs.length) (hmax : .maxString ∉ vs)
    {buf : Bytes} {off : Nat} {r : Bytes × Nat} (hc : copyFrom conv types vs buf off = .ok r) :
    ∃ cs ws, columnBytes conv types vs = .ok cs ∧ computeSize conv types vs = .ok cs.flatten.length ∧
      decodedRow conv types vs = .ok ws ∧ Columns types cs ws ∧
        List.Forall₂ (fun t w => Placed (getHandler t) w) types ws ∧
          ∀ done rest, buf = done ++ rest → off = done.length → cs.flatten.length ≤ rest.length →
            r.1 = done ++ cs.flatten ++ rest.drop cs.flatten.length := by
  induction types generalizing vs buf off with
  | nil =>
    obtain rfl := List.length_eq_zero_iff.mp hlen.symm
    cases hc
    exact ⟨[], [], rfl, rfl, rfl, trivial, .nil, fun done rest hb _ _ => by simpa using hb⟩
  | cons t types ih =>
    obtain - | ⟨v, vs⟩ := vs
    · cases hlen
    obtain ⟨bs, hw, hc⟩ := bind_eq_ok.mp hc
    obtain ⟨n, hn, hc⟩ := bind_eq_ok.mp hc
    obtain ⟨hsize, w, hcol, hp⟩ := column_of_stored hw (fun h => hmax (by simp [h]))
    obtain rfl : n = bs.length := Except.ok.inj (hn.symm.trans hsize)
    obtain ⟨cs, ws, hcs, hcompute, hws, hcols, hps, hbuf⟩ := ih (by simpa using hlen) (fun h => hmax (by simp [h])) hc
    refine ⟨bs :: cs, w :: ws, ?_, ?_, ?_, ⟨hcol, hcols⟩, .cons hp hps, fun done rest hb ho hroom => ?_⟩
    · rw [columnBytes, hw, ok_bind, hcs]
      rfl
    · rw [computeSize, hn, ok_bind, hcompute]
      simp
    · have hread := hcol.read []
      rw [List.append_nil] at hread
      rw [decodedRow, DBDataTypeHandler.decoded, hw, ok_bind, hread, ok_bind, hws]
      rfl
    · rw [List.flatten_cons, List.length_append] at hroom
      subst hb ho
      have := hbuf (done ++ bs) (rest.drop bs.length) (store_append done bs rest) (by simp)
        (by rw [List.length_drop]; omega)
      rw [this]
      simp [List.drop_drop]

theorem columns (k : StoredKey conv types) : ∃ cs, columnBytes conv types k.results = .ok cs ∧ k.key = cs.flatten ∧
    Columns types cs k.decoded ∧ List.Forall₂ (fun t w => Placed (getHandler t) w) types k.decoded := by
  obtain ⟨n, hn, hcopy⟩ := bind_eq_ok.mp k.copied
  obtain ⟨r, hr, hbytes⟩ := bind_eq_ok.mp hcopy
  obtain ⟨cs, ws, hcs, hcompute, hws, hcols, hps, hbuf⟩ := columns_of_copyFrom k.length k.noMax hr
  obtain rfl : n = cs.flatten.length := Except.ok.inj (hn.symm.trans hcompute)
  have hdec : k.decoded = ws := by rw [decoded, hws]
  rw [hdec]
  refine ⟨cs, hcs, ?_, hcols, hps⟩
  rw [← Except.ok.inj hbytes, hbuf [] _ rfl rfl (by simp)]
  simp

end Columns

theorem NaNFree.ordered {k : StoredKey conv types} (h : k.NaNFree) : OrderedTypes types k.decoded := by
  obtain ⟨cs, -, -, -, hp⟩ := k.columns
  rw [NaNFree] at h
  generalize k.decoded = ws at hp h
  clear k
  induction hp with
  | nil => exact .nil
  | @cons t w types ws hw _ ih =>
    refine .cons ?_ (ih fun d hd => h d (by simp [hd]))
    obtain ho | ⟨u, d, -, rfl, hnan⟩ := hw
    · exact ho
    · exact absurd (h d (by simp)) (by simp [hnan])

/-- Keys without NaN whose sizes read back are compared as their columns are. -/
theorem compare_eq_order {a b : StoredKey conv types} (ha : a.NaNFree) (hb : b.NaNFree) (hr : Readable a.decoded) :
    DataRow.compare conv types a.key b.key = .ok (order (ranks a.decoded) (ranks b.decoded)) := by
  obtain ⟨cs, -, hkey, hcols, -⟩ := a.columns
  obtain ⟨ds, -, hkey', hcols', -⟩ := b.columns
  have h := compare_columns conv ha.ordered hb.ordered hcols hcols' hr [] []
  rwa [List.append_nil, List.append_nil, ← hkey, ← hkey'] at h

theorem comparesInOrder_of_readable {keys : List (StoredKey conv types)}
    (h : ∀ k ∈ keys, k.NaNFree ∧ Readable k.decoded) : ComparesInOrder keys where
  preorder := totalPreorder_of_order fun a ha b hb => compare_eq_order (h a ha).1 (h b hb).1 (h a ha).2
  lexicographic a ha b hb := compare_eq_order (h a ha).1 (h b hb).1 (h a ha).2

section NaN

theorem compareDouble_nan {d : Double} (h : d.isNaN = true) : compareDouble d d = .gt := by
  simp [compareDouble, Double.eq, Double.lt, h]

theorem compare_self_of_nan {ws : List ExecutionResult} {cs : List Bytes} (hc : Columns types cs ws)
    (hp : List.Forall₂ (fun t w => Placed (getHandler t) w) types ws) (hr : Readable ws) {d : Double}
    (hd : .double d ∈ ws) (hn : d.isNaN = true) (rest : Bytes) :
    DataRow.compare conv types (cs.flatten ++ rest) (cs.flatten ++ rest) = .ok .gt := by
  induction hp generalizing cs with
  | nil => cases hd
  | @cons t w types ws hw hws ih =>
    obtain - | ⟨bs, cs⟩ := cs
    · exact hc.elim
    obtain ⟨hcol, hc⟩ := hc
    obtain ⟨n, hsize, hback⟩ := hcol.size (cs.flatten ++ rest)
    rw [List.flatten_cons, List.append_assoc, DataRow.compare, hcol.read, ok_bind, ok_bind, hsize]
    obtain ho | ⟨u, e, hu, rfl, hnan⟩ := hw
    · have hmem : .double d ∈ ws := by
        obtain rfl | hmem := List.mem_cons.mp hd
        · generalize getHandler t = h at ho
          cases h with
          | float u => cases u <;> simp [isOrdered, hn] at ho
          | _ => simp [isOrdered, hn] at ho
        · exact hmem
      obtain ⟨v, vs, rfl⟩ := List.exists_cons_of_ne_nil (List.ne_nil_of_mem hmem)
      rw [compare_eq conv ho ho, order_self, hback (hr w (by simp))]
      simp only [ok_bind, ne_eq, not_true_eq_false, if_false, List.drop_left]
      exact ih hc (fun v hv => hr v (by simp [hv])) hmem
    · rw [hu]
      simp [DBDataTypeHandler.compare, compareDouble_nan hnan]

theorem naNFree_of_comparesInOrder {keys : List (StoredKey conv types)} (h : ComparesInOrder keys) {k : StoredKey conv types}
    (hk : k ∈ keys) (hr : Readable k.decoded) : k.NaNFree := by
  intro d hd
  by_contra hn
  obtain ⟨cs, -, hkey, hcols, hp⟩ := k.columns
  have hgt := @compare_self_of_nan conv _ _ _ hcols hp hr d hd (by simpa using hn) []
  have hself := h.preorder.self hk
  rw [List.append_nil, ← hkey] at hgt
  rw [hgt] at hself
  cases hself

end NaN

section LongString

theorem Columns.unique {cs : List Bytes} {vs ws : List ExecutionResult} (hv : Columns types cs vs)
    (hw : Columns types cs ws) : vs = ws := by
  induction types generalizing cs vs ws with
  | nil =>
    obtain - | ⟨b, cs⟩ := cs <;> obtain - | ⟨v, vs⟩ := vs <;> obtain - | ⟨w, ws⟩ := ws
    all_goals first | rfl | exact hv.elim | exact hw.elim
  | cons t types ih =>
    obtain - | ⟨b, cs⟩ := cs
    · exact hv.elim
    obtain - | ⟨v, vs⟩ := vs
    · exact hv.elim
    obtain - | ⟨w, ws⟩ := ws
    · exact hw.elim
    obtain rfl : v = w := Except.ok.inj ((hv.1.read []).symm.trans (hw.1.read []))
    rw [ih hv.2 hw.2]

theorem decoded_of_hasTypes (k : StoredKey conv types) (ht : HasTypes types k.results) : k.decoded = k.results := by
  obtain ⟨cs, hcs, -, hcols, -⟩ := k.columns
  exact Columns.unique hcols (columns_of_columnBytes conv ht hcs)

theorem compare_same_column {t : DBDataType} {bs : Bytes} {v : ExecutionResult} (hc : Column (getHandler t) bs v)
    (ho : isOrdered (getHandler t) v = true) (hs : sizeReadsBack v = true) (a b : Bytes) :
    DataRow.compare conv (t :: types) (bs ++ a) (bs ++ b) = DataRow.compare conv types a b := by
  obtain ⟨n, hn, hsize⟩ := hc.size a
  obtain ⟨m, hm, hsize'⟩ := hc.size b
  rw [DataRow.compare, hc.read, hc.read, ok_bind, ok_bind, compare_eq conv ho ho, order_self, hn, hm, hsize hs, hsize' hs]
  simp

theorem zero_column (t : DBDataType) :
    Column (getHandler t) (List.replicate (width (getHandler t)) 0) (zeroOf (getHandler t)) :=
  column_of_write decimalConversions (zeroOf_admitted _).1 (write_zeroOf _)

theorem isOrdered_zeroOf (t : DBDataType) : isOrdered (getHandler t) (zeroOf (getHandler t)) = true :=
  have h := plain_zeroOf t
  isOrdered_of_hasType h.1 h.2.2

theorem sizeReadsBack_zeroOf (h : DBDataTypeHandler) : sizeReadsBack (zeroOf h) = true := by cases h <;> rfl

theorem compare_zeros_append (T : List DBDataType) {S : List DBDataType} (a b : Bytes) :
    DataRow.compare conv (T ++ S) (List.replicate (widths T) 0 ++ a) (List.replicate (widths T) 0 ++ b) =
      DataRow.compare conv S a b := by
  induction T with
  | nil => rfl
  | cons t T ih =>
    rw [show widths (t :: T) = width (getHandler t) + widths T from rfl, List.replicate_add, List.append_assoc,
      List.append_assoc, List.cons_append,
      compare_same_column (zero_column t) (isOrdered_zeroOf t) (sizeReadsBack_zeroOf _), ih]

variable {U R : List DBDataType} {y z : DBDataType}

def longKeyResults (U R : List DBDataType) (v : ExecutionResult) : List ExecutionResult :=
  zeros U ++ .string longZeros :: (zeros R ++ [v])

theorem plain_longKeyResults (hstr : getHandler y = .string) {v : ExecutionResult} (hv : Plain z v) :
    List.Forall₂ Plain (U ++ y :: (R ++ [z])) (longKeyResults U R v) :=
  List.rel_append (plain_zeros U) (.cons ⟨by rw [hstr]; rfl, by simp, by simp⟩
    (List.rel_append (plain_zeros R) (.cons hv .nil)))

theorem longKey_bytes (hstr : getHandler y = .string) {v : ExecutionResult} {bs : Bytes}
    (hw : (getHandler z).write conv v = .ok bs) :
    ∃ cs, columnBytes conv (U ++ y :: (R ++ [z])) (longKeyResults U R v) = .ok cs ∧
      cs.flatten = List.replicate (widths U) 0 ++
        (ByteOrder.toLittle 2 65533 ++ longZeros ++ (List.replicate (widths R) 0 ++ bs)) := by
  obtain ⟨ds, hds, hflat⟩ := columnBytes_zeros_append R (@columnBytes_cons_ok _ _ [] _ [] _ _ hw rfl)
  have hlong : (getHandler y).write conv (.string longZeros) = .ok (ByteOrder.toLittle 2 65533 ++ longZeros) := by
    rw [hstr]
    exact LevelDBInsertPlan.write_longZeros
  obtain ⟨cs, hcs, hflat'⟩ := columnBytes_zeros_append U (columnBytes_cons_ok hlong hds)
  refine ⟨cs, hcs, ?_⟩
  rw [hflat', List.flatten_cons, hflat]
  simp

/-- Behind the long string, whose size is read back as that of the empty one, only zeros are compared. -/
theorem compare_longKey (hstr : getHandler y = .string) (bs bs' : Bytes) :
    DataRow.compare conv (U ++ y :: (R ++ [z]))
      (List.replicate (widths U) 0 ++ (ByteOrder.toLittle 2 65533 ++ longZeros ++ (List.replicate (widths R) 0 ++ bs)))
      (List.replicate (widths U) 0 ++ (ByteOrder.toLittle 2 65533 ++ longZeros ++ (List.replicate (widths R) 0 ++ bs'))) =
        .ok .eq := by
  have hread : ∀ rest, DBDataTypeHandler.string.read (ByteOrder.toLittle 2 65533 ++ longZeros ++ rest) = .ok (.string longZeros) :=
    fun rest => by
      have h := @read_string longZeros (by rw [LevelDBInsertPlan.length_longZeros]; decide) rest
      rwa [LevelDBInsertPlan.length_longZeros] at h
  have hsize : ∀ rest, DBDataTypeHandler.string.getSizeAt (ByteOrder.toLittle 2 65533 ++ longZeros ++ rest) = .ok 2 :=
    fun rest => getSizeAt_string (by decide) longZeros rest
  obtain ⟨m, hm⟩ := Nat.exists_eq_add_of_le (LevelDBInsertPlan.width_le (getHandler z))
  have hzeros : ∀ b : Bytes, longZeros ++ (List.replicate (widths R) 0 ++ b) = List.replicate (widths R) 0 ++
      (List.replicate (width (getHandler z)) 0 ++ (List.replicate m 0 ++ b)) := fun b => by
    rw [longZeros, hm, ← List.append_assoc, ← List.append_assoc, ← List.append_assoc, ← List.replicate_add,
      ← List.replicate_add, ← List.replicate_add]
    congr 2
    omega
  rw [compare_zeros_append, DataRow.compare, hstr, hread, hread, ok_bind, ok_bind, hsize, hsize,
    compare_eq conv (h := .string) rfl rfl, order_self]
  simp only [ok_bind, ne_eq, not_true_eq_false, if_false, List.append_assoc]
  rw [List.drop_left' (by simp), List.drop_left' (by simp), hzeros, hzeros, compare_zeros_append,
    compare_same_column (zero_column z) (isOrdered_zeroOf z) (sizeReadsBack_zeroOf _)]
  rfl

theorem exists_longKey (hstr : getHandler y = .string) {v : ExecutionResult} (hv : Plain z v) {bs : Bytes}
    (hw : (getHandler z).write conv v = .ok bs) : ∃ k : StoredKey conv (U ++ y :: (R ++ [z])),
      k.NaNFree ∧ k.decoded = longKeyResults U R v ∧ k.key = List.replicate (widths U) 0 ++
        (ByteOrder.toLittle 2 65533 ++ longZeros ++ (List.replicate (widths R) 0 ++ bs)) := by
  obtain ⟨cs, hcs, hflat⟩ := @longKey_bytes conv U R y z hstr v bs hw
  have hplain := @plain_longKeyResults U R y z hstr v hv
  have htypes : HasTypes (U ++ y :: (R ++ [z])) (longKeyResults U R v) := hplain.imp fun _ _ h => h.1
  have hmem : ∀ w ∈ longKeyResults U R v, w ≠ .maxString ∧ ∀ d, w = .double d → d.isNaN = false := fun w hw => by
    obtain ⟨i, hi⟩ := List.mem_iff_getElem?.mp hw
    obtain ⟨hlt, rfl⟩ := List.getElem?_eq_some_iff.mp hi
    exact ((List.forall₂_iff_get.mp hplain).2 i (hplain.length_eq ▸ hlt) hlt).2
  let k : StoredKey conv (U ++ y :: (R ++ [z])) :=
    { results := longKeyResults U R v
      key := cs.flatten
      length := hplain.length_eq
      noMax := fun h => (hmem _ h).1 rfl
      copied := (copyRow_eq_ok conv htypes).mpr ⟨cs, hcs, rfl⟩ }
  have hdec : k.decoded = longKeyResults U R v := k.decoded_of_hasTypes htypes
  exact ⟨k, fun d hd => (hmem _ (hdec ▸ hd)).2 d rfl, hdec, hflat⟩

theorem rank_zeroOf_ne (h : DBDataType) : rank (zeroOf (getHandler h)) ≠ rank (nonZero (getHandler h)) := by
  intro he
  have hplain := plain_nonZero h
  have hcmp := compare_eq decimalConversions (isOrdered_zeroOf h) (isOrdered_of_hasType hplain.1 hplain.2.2)
  rw [LevelDBInsertPlan.compare_zero_nonZero, he, order_self] at hcmp
  cases hcmp

theorem noInnerString_of_comparesInOrder
    (h : ∀ a b c : StoredKey conv types, a.NaNFree → b.NaNFree → c.NaNFree → ComparesInOrder [a, b, c]) :
    NoInnerString types := by
  by_contra hinner
  obtain ⟨U, y, x, S, rfl, hstr⟩ := LevelDBInsertPlan.exists_inner_string hinner
  obtain ⟨R, z, hRz⟩ : ∃ R z, x :: S = R ++ [z] :=
    ⟨_, _, (List.dropLast_append_getLast (List.cons_ne_nil x S)).symm⟩
  rw [hRz] at h hinner
  obtain ⟨bs, hbs⟩ := @LevelDBInsertPlan.write_nonZero conv (getHandler z)
  obtain ⟨a, ha, hda, hka⟩ := @exists_longKey conv U R y z hstr _ (plain_zeroOf z) _ (write_zeroOf _)
  obtain ⟨b, hb, hdb, hkb⟩ := @exists_longKey conv U R y z hstr _ (plain_nonZero z) _ hbs
  have hlex := (h a b b ha hb hb).lexicographic a (by simp) b (by simp)
  rw [hka, hkb, compare_longKey hstr, hda, hdb] at hlex
  have hranks := order_eq_eq.mp (Except.ok.inj hlex).symm
  simp only [longKeyResults, ranks, List.map_append, List.map_cons, List.append_cancel_left_eq, List.cons.injEq,
    List.map_nil, and_true, true_and] at hranks
  exact rank_zeroOf_ne z hranks

end LongString

/-- Three stored keys whose sizes read back are compared as their decoded columns exactly when
none holds a NaN; without NaN all keys are, exactly when no column before the last stores strings. -/
theorem comparesInOrder_iff (conv : Conversions) (types : List DBDataType) :
    (∀ a b c : StoredKey conv types, Readable a.decoded → Readable b.decoded → Readable c.decoded →
        (ComparesInOrder [a, b, c] ↔ a.NaNFree ∧ b.NaNFree ∧ c.NaNFree)) ∧
      ((∀ a b c : StoredKey conv types, a.NaNFree → b.NaNFree → c.NaNFree → ComparesInOrder [a, b, c]) ↔
        NoInnerString types) := by
  refine ⟨fun a b c ha hb hc => ⟨fun h => ?_, fun ⟨hna, hnb, hnc⟩ => ?_⟩, noInnerString_of_comparesInOrder, fun h a b c ha hb hc => ?_⟩
  · exact ⟨naNFree_of_comparesInOrder h (by simp) ha, naNFree_of_comparesInOrder h (by simp) hb,
      naNFree_of_comparesInOrder h (by simp) hc⟩
  · exact comparesInOrder_of_readable (by simp [ha, hb, hc, hna, hnb, hnc])
  · have hr : ∀ k : StoredKey conv types, k.NaNFree → Readable k.decoded :=
      fun k hk => LevelDBInsertPlan.readable_of_noInnerString h
        (hk.ordered.hasTypes.imp fun _ _ => LevelDBInsertPlan.sizeReadsBack_of_hasType)
    exact comparesInOrder_of_readable (by simp [hr a ha, hr b hb, hr c hc, ha, hb, hc])

def nanConversions : Conversions :=
  { decimalConversions with simpleAtod := fun s => if s = bytes "nan" then some Double.nan else decimalConversions.simpleAtod s }

/-- The text `nan` passes the checks of a double column, and the key it makes is greater than itself. -/
theorem nan_not_comparesInOrder : ∃ k : StoredKey nanConversions [.double],
    fromString nanConversions .double (bytes "nan") = .ok (.double Double.nan) ∧ k.results = [.double Double.nan] ∧
      DataRow.compare nanConversions [.double] k.key k.key = .ok .gt ∧ ¬ ComparesInOrder [k, k, k] := by
  refine ⟨⟨[.double Double.nan], _, rfl, by simp, rfl⟩, by decide +kernel, rfl, by decide +kernel, fun h => ?_⟩
  have hself := h.preorder.self (List.mem_cons_self)
  revert hself
  decide +kernel

end StoredKey

end LevelPgServer
