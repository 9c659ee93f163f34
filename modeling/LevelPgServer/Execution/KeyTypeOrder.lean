import LevelPgServer.Execution.InsertCorrect

namespace LevelPgServer.KeyTypeOrder

open DBDataTypeHandler DataRow KeyOrder ExceptRules

variable {conv : Conversions}

/-- The inserting side and the table have the same handlers, key column by key column. -/
def KeyTypesAgree (t : TableInfo) : Prop :=
  (LevelDBInsertPlan.create t).keyTypes.map getHandler = t.keyTypes.map getHandler

def sameKind : DBDataTypeHandler → DBDataTypeHandler → Bool
  | .int _, .int _ | .float _, .float _ | .string, .string => true
  | _, _ => false

/-- At some place one of the two writes numbers and the other strings, or one writes
integers and the other floats: then no row can be inserted. -/
def KeyTypesClash (t : TableInfo) : Prop :=
  ∃ (k : Nat) (T U : DBDataType), (LevelDBInsertPlan.create t).keyTypes[k]? = some T ∧ t.keyTypes[k]? = some U ∧
    sameKind (getHandler T) (getHandler U) = false

section Handlers

/-- The bytes of the values used below: numbers, and the empty string. -/
def width : DBDataTypeHandler → Nat
  | .int t => t.size
  | .float t => t.size
  | .string => 2

def zeroOf : DBDataTypeHandler → ExecutionResult
  | .int _ => .int 0
  | .float _ => .double (Double.ofInt 0)
  | .string => .string []

def oneOf : DBDataTypeHandler → ExecutionResult
  | .int _ => .int 1
  | .float _ => .double (Double.ofInt 1)
  | .string => .string []

def oneBytes : DBDataTypeHandler → Bytes
  | .int t => ByteOrder.intToLittle t.size 1
  | .float t => writeFloat t (Double.ofInt 1)
  | .string => [0, 0]

theorem write_zeroOf (h : DBDataTypeHandler) : h.write conv (zeroOf h) = .ok (List.replicate (width h) 0) := by
  cases h with
  | int t => exact (write_int (by cases t <;> decide)).trans (by cases t <;> decide)
  | float t => exact (write_float (by rw [FloatType.checkValue, if_neg]; cases t <;> decide)).trans (by cases t <;> decide +kernel)
  | string => rfl

theorem write_oneOf (h : DBDataTypeHandler) : h.write conv (oneOf h) = .ok (oneBytes h) := by
  cases h with
  | int t => exact write_int (by cases t <;> decide)
  | float t => exact write_float (by rw [FloatType.checkValue, if_neg]; cases t <;> decide)
  | string => rfl

theorem length_oneBytes (h : DBDataTypeHandler) : (oneBytes h).length = width h := by
  cases h with
  | int t => exact ByteOrder.length_intToLittle _ _
  | float t => exact length_writeFloat _ _
  | string => rfl

theorem zeroOf_admitted (h : DBDataTypeHandler) : hasType h (zeroOf h) = true ∧ zeroOf h ≠ .maxString := by
  cases h with
  | int t => exact ⟨rfl, by simp [zeroOf]⟩
  | float t => cases t <;> exact ⟨by decide +kernel, by simp [zeroOf]⟩
  | string => exact ⟨rfl, by simp [zeroOf]⟩

theorem oneOf_admitted (h : DBDataTypeHandler) : hasType h (oneOf h) = true ∧ oneOf h ≠ .maxString := by
  cases h with
  | int t => exact ⟨rfl, by simp [oneOf]⟩
  | float t => cases t <;> exact ⟨by decide +kernel, by simp [oneOf]⟩
  | string => exact ⟨rfl, by simp [oneOf]⟩

theorem zeroOf_sameKind {h g : DBDataTypeHandler} (hk : sameKind h g = true) : zeroOf h = zeroOf g := by
  cases h <;> cases g <;> first | rfl | cases hk

theorem oneOf_sameKind {h g : DBDataTypeHandler} (hk : sameKind h g = true) : oneOf h = oneOf g := by
  cases h <;> cases g <;> first | rfl | cases hk

theorem getSizeAt_of_zero {h : DBDataTypeHandler} {bs : Bytes} (hr : h.read bs = .ok (zeroOf h)) :
    h.getSizeAt bs = .ok (width h) := by
  cases h with
  | int t => rfl
  | float t => rfl
  | string =>
    rw [DBDataTypeHandler.read] at hr
    split at hr
    · cases hr
    · next hshort =>
      dsimp only at hr
      split at hr
      · cases hr
      · split at hr
        · cases hr
        · next hlen =>
          have hnil : (bs.drop 2).take (ByteOrder.ofLittle (bs.take 2)) = [] :=
            ExecutionResult.string.inj (Except.ok.inj hr)
          have hzero : ByteOrder.ofLittle (bs.take 2) = 0 := by
            have := congrArg List.length hnil
            simp only [List.length_take, List.length_drop, List.length_nil] at this
            omega
          rw [getSizeAt, if_neg hshort, hzero]
          rfl

theorem read_number {h : DBDataTypeHandler} (hs : h ≠ .string) {bs : Bytes} (hlen : bs.length = width h) (rest : Bytes) :
    h.read (bs ++ rest) = h.read bs := by
  cases h with
  | int t =>
    have hl : bs.length = t.size := hlen
    simp [DBDataTypeHandler.read, hl, List.take_left' hl, List.take_of_length_le hl.le]
  | float t =>
    have hl : bs.length = t.size := hlen
    simp [DBDataTypeHandler.read, hl, List.take_left' hl, List.take_of_length_le hl.le]
  | string => exact absurd rfl hs

/-- A one that was written with less bytes, behind zeros, is not read as one. -/
theorem misread_wide {x y : DBDataTypeHandler} (hk : sameKind x y = true) (hlt : width x < width y) (rest : Bytes) :
    y.read (List.replicate (width y - width x) 0 ++ oneBytes x ++ rest) ≠ .ok (oneOf y) := by
  have hs : y ≠ .string := by
    rintro rfl
    cases x <;> first | exact absurd hlt (lt_irrefl _) | cases hk
  rw [read_number hs (by simp [length_oneBytes]; omega)]
  cases x with
  | int t =>
    cases y with
    | int u => cases t <;> cases u <;> first | exact absurd hlt (by decide) | decide
    | _ => cases hk
  | float t =>
    cases y with
    | float u => cases t <;> cases u <;> first | exact absurd hlt (by decide) | decide
    | _ => cases hk
  | string =>
    cases y with
    | string => exact absurd hlt (lt_irrefl _)
    | _ => cases hk

/-- The last bytes of a one that was written with more bytes are not read as one. -/
theorem misread_narrow {x y : DBDataTypeHandler} (hk : sameKind x y = true) (hlt : width y < width x) (rest : Bytes) :
    y.read ((oneBytes x).drop (width x - width y) ++ rest) ≠ .ok (oneOf y) := by
  have hs : y ≠ .string := by
    rintro rfl
    cases x <;> first | exact absurd hlt (lt_irrefl _) | cases hk
  rw [read_number hs (by rw [List.length_drop, length_oneBytes]; omega)]
  cases x with
  | int t =>
    cases y with
    | int u => cases t <;> cases u <;> first | exact absurd hlt (by decide) | decide
    | _ => cases hk
  | float t =>
    cases y with
    | float u => cases t <;> cases u <;> first | exact absurd hlt (by decide) | decide
    | _ => cases hk
  | string =>
    cases y with
    | string => exact absurd hlt (lt_irrefl _)
    | _ => cases hk

theorem width_ne {x y : DBDataTypeHandler} (hk : sameKind x y = true) (hne : x ≠ y) : width x ≠ width y := by
  cases x with
  | int t =>
    cases y with
    | int u => cases t <;> cases u <;> first | exact absurd rfl hne | decide
    | _ => cases hk
  | float t =>
    cases y with
    | float u => cases t <;> cases u <;> first | exact absurd rfl hne | decide
    | _ => cases hk
  | string =>
    cases y with
    | string => exact absurd rfl hne
    | _ => cases hk

/-- Read at the place where the reader expects it, a one of another width is not a one. -/
theorem misread {x y : DBDataTypeHandler} (hk : sameKind x y = true) (hne : x ≠ y) {a b : Nat}
    (hab : a + width x = b + width y) (rest : Bytes) :
    y.read ((List.replicate a 0 ++ oneBytes x ++ rest).drop b) ≠ .ok (oneOf y) := by
  rcases Nat.lt_or_gt_of_ne (width_ne hk hne) with hlt | hgt
  · obtain rfl : a = b + (width y - width x) := by omega
    rw [List.replicate_add, List.append_assoc, List.append_assoc, List.drop_left' (by simp), ← List.append_assoc]
    exact misread_wide hk hlt rest
  · obtain rfl : b = a + (width x - width y) := by omega
    rw [← List.drop_drop, List.append_assoc, List.drop_left' (by simp),
      List.drop_append_of_le_length (by rw [length_oneBytes]; omega)]
    exact misread_narrow hk hgt rest

end Handlers

section Rows

def widths (types : List DBDataType) : Nat := (types.map (fun t => width (getHandler t))).sum

def zeros (types : List DBDataType) : List ExecutionResult := types.map (fun t => zeroOf (getHandler t))

theorem columnBytes_cons_ok {t : DBDataType} {types : List DBDataType} {v : ExecutionResult}
    {vs : List ExecutionResult} {bs : Bytes} {cs : List Bytes} (hw : (getHandler t).write conv v = .ok bs)
    (hc : columnBytes conv types vs = .ok cs) : columnBytes conv (t :: types) (v :: vs) = .ok (bs :: cs) := by
  rw [columnBytes, hw, ok_bind, hc]
  rfl

theorem columnBytes_zeros_append (T : List DBDataType) {S : List DBDataType} {vs : List ExecutionResult}
    {cs : List Bytes} (hc : columnBytes conv S vs = .ok cs) : ∃ ds, columnBytes conv (T ++ S) (zeros T ++ vs) = .ok ds ∧
      ds.flatten = List.replicate (widths T) 0 ++ cs.flatten := by
  induction T with
  | nil => exact ⟨cs, hc, rfl⟩
  | cons t T ih =>
    obtain ⟨ds, hds, hf⟩ := ih
    refine ⟨_, columnBytes_cons_ok (write_zeroOf _) hds, ?_⟩
    rw [List.flatten_cons, hf, show widths (t :: T) = width (getHandler t) + widths T from rfl, List.replicate_add,
      List.append_assoc]

theorem columnBytes_zeros (types : List DBDataType) : ∃ cs, columnBytes conv types (zeros types) = .ok cs ∧
    cs.flatten = List.replicate (widths types) 0 := by
  obtain ⟨cs, hcs, hf⟩ := @columnBytes_zeros_append conv types [] [] _ rfl
  exact ⟨cs, by simpa using hcs, by simpa using hf⟩

/-- A row of zeros with a one behind the columns of `T`. -/
theorem columnBytes_one (T : List DBDataType) (x : DBDataType) (S : List DBDataType) :
    ∃ cs, columnBytes conv (T ++ x :: S) (zeros T ++ oneOf (getHandler x) :: zeros S) = .ok cs ∧
      cs.flatten = List.replicate (widths T) 0 ++ oneBytes (getHandler x) ++ List.replicate (widths S) 0 := by
  obtain ⟨cs, hcs, hf⟩ := @columnBytes_zeros conv S
  obtain ⟨ds, hds, hg⟩ := columnBytes_zeros_append T (columnBytes_cons_ok (write_oneOf (getHandler x)) hcs)
  exact ⟨ds, hds, by rw [hg, List.flatten_cons, hf, List.append_assoc]⟩

/-- Behind columns that read as zeros the reader stands where their widths say. -/
theorem getResult_behind_zeros (U W : List DBDataType) (key : Bytes)
    (h : ∀ (j : Nat) (u : DBDataType), U[j]? = some u → getResult (U ++ W) key j = .ok (zeroOf (getHandler u))) (k : Nat) :
    getResult (U ++ W) key (U.length + k) = getResult W (key.drop (widths U)) k := by
  induction U generalizing key with
  | nil =>
    rw [List.nil_append, List.length_nil, Nat.zero_add]
    rfl
  | cons u U ih =>
    have hsize := getSizeAt_of_zero (h 0 u rfl)
    rw [List.cons_append, List.length_cons, Nat.add_right_comm, getResult, hsize, ok_bind, ih]
    · rw [List.drop_drop]
      rfl
    · intro j v hj
      have := h (j + 1) v hj
      rwa [List.cons_append, getResult, hsize, ok_bind] at this

/-- Of two lists of types of the same kinds, the last place where the handlers differ. -/
theorem last_difference {T U : List DBDataType}
    (hk : List.Forall₂ (fun T U => sameKind (getHandler T) (getHandler U) = true) T U)
    (hne : T.map getHandler ≠ U.map getHandler) : ∃ T' x S U' y S', T = T' ++ x :: S ∧ U = U' ++ y :: S' ∧
      getHandler x ≠ getHandler y ∧ sameKind (getHandler x) (getHandler y) = true ∧
        List.Forall₂ (fun T U => sameKind (getHandler T) (getHandler U) = true) T' U' ∧
          S.map getHandler = S'.map getHandler := by
  induction hk with
  | nil => exact absurd rfl hne
  | @cons x y S S' hxy hk ih =>
    by_cases hs : S.map getHandler = S'.map getHandler
    · have hne' : getHandler x ≠ getHandler y := fun he => hne (by rw [List.map_cons, List.map_cons, he, hs])
      exact ⟨[], x, S, [], y, S', rfl, rfl, hne', hxy, .nil, hs⟩
    · obtain ⟨T', x', R, U', y', R', rfl, rfl, h1, h2, h3, h4⟩ := ih hs
      exact ⟨x :: T', x', R, y :: U', y', R', rfl, rfl, h1, h2, .cons hxy h3, h4⟩

theorem widths_congr {S S' : List DBDataType} (h : S.map getHandler = S'.map getHandler) : widths S = widths S' := by
  have hsum := congrArg (fun l : List DBDataTypeHandler => (l.map width).sum) h
  simpa [widths, List.map_map, Function.comp_def] using hsum

theorem zeros_congr {S S' : List DBDataType}
    (h : List.Forall₂ (fun T U => sameKind (getHandler T) (getHandler U) = true) S S') : zeros S = zeros S' := by
  induction h with
  | nil => rfl
  | cons hk _ ih => rw [zeros, zeros, List.map_cons, List.map_cons, zeroOf_sameKind hk]; exact congrArg _ ih

/-- Where two lists of types of the same kinds and widths differ, some row of zeros and a
one that is written with the first cannot be read back with the second. -/
theorem misread_row {T U : List DBDataType}
    (hk : List.Forall₂ (fun T U => sameKind (getHandler T) (getHandler U) = true) T U)
    (hne : T.map getHandler ≠ U.map getHandler) (hw : widths T = widths U) :
    ∃ ks key, copyRow conv T ks = .ok key ∧
      List.Forall₂ (fun U v => v = zeroOf (getHandler U) ∨ v = oneOf (getHandler U)) U ks ∧
        ¬ ∀ (k : Nat) (v : ExecutionResult), ks[k]? = some v → getResult U key k = .ok v := by
  obtain ⟨T', x, S, U', y, S', rfl, rfl, hxy, hkind, hk', hsuffix⟩ := last_difference hk hne
  have hwidth : widths T' + width (getHandler x) = widths U' + width (getHandler y) := by
    have happend : ∀ (A B : List DBDataType) (z : DBDataType),
        widths (A ++ z :: B) = widths A + width (getHandler z) + widths B := by
      intro A B z
      simp [widths, Nat.add_assoc]
    rw [happend, happend, widths_congr hsuffix] at hw
    exact Nat.add_right_cancel hw
  obtain ⟨cs, hcs, hflat⟩ := @columnBytes_one conv T' x S
  have hvalues : zeros T' ++ oneOf (getHandler x) :: zeros S = zeros U' ++ oneOf (getHandler y) :: zeros S' := by
    have hzeros : zeros S = zeros S' := by
      have := congrArg (fun l : List DBDataTypeHandler => l.map zeroOf) hsuffix
      simpa [zeros, List.map_map, Function.comp_def] using this
    rw [zeros_congr hk', oneOf_sameKind hkind, hzeros]
  have htypes : HasTypes (T' ++ x :: S) (zeros T' ++ oneOf (getHandler x) :: zeros S) := by
    have hz : ∀ types : List DBDataType, HasTypes types (zeros types) := by
      intro types
      induction types with
      | nil => exact .nil
      | cons t types ih => exact .cons (zeroOf_admitted _).1 ih
    exact List.rel_append (hz T') (.cons (oneOf_admitted _).1 (hz S))
  refine ⟨_, _, (copyRow_eq_ok conv htypes).mpr ⟨cs, hcs, rfl⟩, ?_, fun hread => ?_⟩
  · rw [hvalues]
    have hz : ∀ types : List DBDataType, List.Forall₂ (fun U v => v = zeroOf (getHandler U) ∨ v = oneOf (getHandler U))
        types (zeros types) := by
      intro types
      induction types with
      | nil => exact .nil
      | cons t types ih => exact .cons (.inl rfl) ih
    exact List.rel_append (hz U') (.cons (.inr rfl) (hz S'))
  · rw [hvalues] at hread
    have hlen : (zeros U').length = U'.length := by simp [zeros]
    have hone := hread U'.length (oneOf (getHandler y)) (by rw [← hlen, List.getElem?_append_right le_rfl]; simp)
    have hbehind := getResult_behind_zeros U' (y :: S') cs.flatten (fun j u hj => ?_) 0
    · rw [Nat.add_zero] at hbehind
      rw [hbehind, hflat] at hone
      exact misread hkind hxy hwidth _ hone
    ·
      have hlt : j < U'.length := (List.getElem?_eq_some_iff.mp hj).1
      refine hread j _ ?_
      rw [List.getElem?_append_left (by rw [hlen]; exact hlt), zeros, List.getElem?_map, hj]
      rfl

end Rows

section Kinds

def isFloat : DBDataTypeHandler → Bool
  | .float _ => true
  | _ => false

/-- If `p` holds wherever `q` does and both hold equally often, they hold together. -/
theorem eq_of_countP_eq {α β : Type} {p : α → Bool} {q : β → Bool} {as : List α} {bs : List β}
    (h : List.Forall₂ (fun a b => q b = true → p a = true) as bs) (hc : as.countP p = bs.countP q) :
    List.Forall₂ (fun a b => p a = q b) as bs := by
  have hle : ∀ {as : List α} {bs : List β}, List.Forall₂ (fun a b => q b = true → p a = true) as bs →
      bs.countP q ≤ as.countP p := by
    intro as bs h
    induction h with
    | nil => exact le_rfl
    | @cons a b as bs hab _ ih =>
      rw [List.countP_cons, List.countP_cons]
      cases hq : q b with
      | false => simp; omega
      | true => simp [hab hq, ih]
  induction h with
  | nil => exact .nil
  | @cons a b as bs hab h ih =>
    rw [List.countP_cons, List.countP_cons] at hc
    have hrest := hle h
    cases hq : q b with
    | true =>
      rw [hab hq, hq] at hc
      exact .cons (by rw [hab hq, hq]) (ih (Nat.add_right_cancel hc))
    | false =>
      cases hp : p a with
      | false =>
        rw [hp, hq] at hc
        exact .cons (by rw [hp, hq]) (ih (Nat.add_right_cancel hc))
      | true =>
        rw [hp, hq] at hc
        simp at hc
        omega

/-- A value of a column that another handler stores: the two are of one kind, or the other
one stores integers as floats. -/
theorem kinds_of_write {h g : DBDataTypeHandler} {v : ExecutionResult} {bs : Bytes} (hw : h.write conv v = .ok bs)
    (ht : accepts g v = true) :
    (isFloat g = true → isFloat h = true) ∧ (isFloat h = isFloat g → sameKind h g = true) := by
  cases v with
  | null => cases g <;> cases ht
  | maxString => cases g <;> cases ht
  | string s =>
    obtain rfl : g = .string := by
      cases g with
      | string => rfl
      | _ => cases ht
    cases h with
    | string => exact ⟨fun hf => hf, fun _ => rfl⟩
    | _ => cases hw
  | int i =>
    obtain ⟨u, rfl⟩ : ∃ u, g = .int u := by
      cases g with
      | int u => exact ⟨u, rfl⟩
      | _ => cases ht
    cases h with
    | string => cases hw
    | int t => exact ⟨fun hf => hf, fun _ => rfl⟩
    | float t => exact ⟨fun _ => rfl, fun hf => by cases hf⟩
  | double d =>
    obtain ⟨u, rfl⟩ : ∃ u, g = .float u := by
      cases g with
      | float u => exact ⟨u, rfl⟩
      | _ => cases ht
    cases h with
    | float t => exact ⟨fun hf => hf, fun _ => rfl⟩
    | _ => cases hw

/-- A row that is stored with types in another order is stored with types of the same kinds. -/
theorem sameKinds_of_copyRow {T U : List DBDataType} {ks : List ExecutionResult} {key : Bytes}
    (hc : copyRow conv T ks = .ok key)
    (hu : List.Forall₂ (fun U v => accepts (getHandler U) v = true) U ks) (hp : T.Perm U) :
    List.Forall₂ (fun T U => sameKind (getHandler T) (getHandler U) = true) T U := by
  have hwrites : ∀ {T : List DBDataType} {ks : List ExecutionResult} {buf : Bytes} {off : Nat} {r : Bytes × Nat},
      T.length = ks.length → copyFrom conv T ks buf off = .ok r →
        List.Forall₂ (fun t v => ∃ bs, (getHandler t).write conv v = .ok bs) T ks := by
    intro T
    induction T with
    | nil =>
      intro ks buf off r hlen _
      obtain rfl := List.length_eq_zero_iff.mp hlen.symm
      exact .nil
    | cons t T ih =>
      intro ks buf off r hlen h
      cases ks with
      | nil => cases hlen
      | cons v ks =>
        obtain ⟨bs, hbs, h⟩ := bind_eq_ok.mp h
        obtain ⟨n, -, h⟩ := bind_eq_ok.mp h
        exact .cons ⟨bs, hbs⟩ (ih (by simpa using hlen) h)
  have hkinds : ∀ {T U : List DBDataType} {ks : List ExecutionResult},
      List.Forall₂ (fun t v => ∃ bs, (getHandler t).write conv v = .ok bs) T ks →
        List.Forall₂ (fun U v => accepts (getHandler U) v = true) U ks →
          List.Forall₂ (fun T U => (isFloat (getHandler U) = true → isFloat (getHandler T) = true) ∧
            (isFloat (getHandler T) = isFloat (getHandler U) → sameKind (getHandler T) (getHandler U) = true)) T U := by
    intro T U ks hw
    induction hw generalizing U with
    | nil => intro hu; cases hu; exact .nil
    | cons hw _ ih =>
      intro hu
      cases hu with
      | cons hu hus =>
        obtain ⟨bs, hbs⟩ := hw
        exact .cons (kinds_of_write hbs hu) (ih hus)
  obtain ⟨n, -, hc⟩ := bind_eq_ok.mp hc
  obtain ⟨r, hr, -⟩ := bind_eq_ok.mp hc
  have hall := hkinds (hwrites (hp.length_eq.trans hu.length_eq) hr) hu
  have hfloats := eq_of_countP_eq (p := fun t => isFloat (getHandler t)) (q := fun t => isFloat (getHandler t))
    (hall.imp fun _ _ h => h.1) (hp.countP_eq _)
  rw [List.forall₂_iff_get] at hall hfloats ⊢
  exact ⟨hall.1, fun i h1 h2 => (hall.2 i h1 h2).2 (hfloats.2 i h1 h2)⟩

end Kinds

end LevelPgServer.KeyTypeOrder
