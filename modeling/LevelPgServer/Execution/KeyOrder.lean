import LevelPgServer.Execution.DataRow
import LevelPgServer.Lib.ThreeWay

namespace LevelPgServer.KeyOrder

open DBDataTypeHandler DataRow ExceptRules ThreeWay

/-- Where the values of one column stand in their order: numbers by their number, strings
by their bytes, and the greatest string after all others. -/
abbrev Rank := ℤ ×ₗ WithTop (List ℕ)

def rank : ExecutionResult → Rank
  | .null => toLex (0, ↑([] : List ℕ))
  | .string s => toLex (0, ↑(s.map UInt8.toNat))
  | .maxString => toLex (0, ⊤)
  | .int v => toLex (v, ↑([] : List ℕ))
  | .double d => toLex (d.orderKey, ↑([] : List ℕ))

/-- A value of the handler's type that has a place in the order: not a NaN. -/
def isOrdered (h : DBDataTypeHandler) (v : ExecutionResult) : Bool :=
  hasType h v && match v with
    | .double d => !d.isNaN
    | _ => true

theorem hasType_of_isOrdered {h : DBDataTypeHandler} {v : ExecutionResult} (ho : isOrdered h v = true) :
    hasType h v = true := (Bool.and_eq_true_iff.mp ho).1

theorem compareBytes_eq (s t : Bytes) : compareBytes s t = order (s.map UInt8.toNat) (t.map UInt8.toNat) := by
  induction s generalizing t with
  | nil =>
    cases t with
    | nil => rfl
    | cons b t => exact (order_nil_cons _ _).symm
  | cons a s ih =>
    cases t with
    | nil => exact (order_cons_nil _ _).symm
    | cons b t =>
      rw [compareBytes, List.map_cons, List.map_cons, order_cons, ih]
      simp only [order, UInt8.lt_iff_toNat_lt]
      split
      · rfl
      · split
        · rfl
        · rfl

theorem compareInt_eq (a b : Int) : compareInt a b = order a b := by
  rcases lt_trichotomy a b with h | rfl | h
  · rw [compareInt, if_neg h.ne, if_pos h, order_of_lt h]
  · rw [compareInt, if_pos rfl, order_self]
  · rw [compareInt, if_neg h.ne', if_neg h.not_gt, order_of_gt h]

theorem compareDouble_eq {a b : Double} (ha : a.isNaN = false) (hb : b.isNaN = false) :
    compareDouble a b = order a.orderKey b.orderKey := by
  rw [← compareInt_eq]
  simp [compareDouble, compareInt, Double.eq, Double.lt, ha, hb]

theorem order_number (a b : ℤ) (s : WithTop (List ℕ)) : order (toLex (a, s)) (toLex (b, s)) = order a b :=
  order_map (toLex_strictMono_left s) a b

theorem order_text (s t : WithTop (List ℕ)) : order (toLex ((0 : ℤ), s)) (toLex ((0 : ℤ), t)) = order s t :=
  order_map (toLex_strictMono_right 0) s t

/-- The handlers compare two values of their type as their places in the order. -/
theorem compare_eq (conv : Conversions) {h : DBDataTypeHandler} {a b : ExecutionResult}
    (ha : isOrdered h a = true) (hb : isOrdered h b = true) :
    h.compare conv a b = .ok (order (rank a) (rank b)) := by
  cases h with
  | int t =>
    cases a <;> cases b <;> simp [isOrdered, hasType] at ha hb
    simp [DBDataTypeHandler.compare, compareInt_eq, rank, order_number]
  | float t =>
    cases t <;> cases a <;> cases b <;> simp [isOrdered, hasType] at ha hb
    · simp [DBDataTypeHandler.compare, compareDouble_eq ha.2 hb.2, rank, order_number]
    · simp [DBDataTypeHandler.compare, compareDouble_eq ha hb, rank, order_number]
  | string =>
    cases a <;> cases b <;> simp [isOrdered, hasType] at ha hb
    · simp [DBDataTypeHandler.compare, compareBytes_eq, rank, order_text, order_coe]
    · simp [DBDataTypeHandler.compare, rank, order_text, order_coe_top]
    · simp [DBDataTypeHandler.compare, rank, order_text, order_top_coe]
    · simp [DBDataTypeHandler.compare, rank]

abbrev OrderedTypes (types : List DBDataType) (vs : List ExecutionResult) : Prop :=
  List.Forall₂ (fun t v => isOrdered (getHandler t) v = true) types vs

theorem OrderedTypes.hasTypes {types : List DBDataType} {vs : List ExecutionResult} (h : OrderedTypes types vs) :
    HasTypes types vs := h.imp fun _ _ ho => hasType_of_isOrdered ho

def ranks (vs : List ExecutionResult) : List Rank := vs.map rank

/-- No value but the last is one whose size is read back differently. -/
def Readable (vs : List ExecutionResult) : Prop := ∀ v ∈ vs.dropLast, sizeReadsBack v = true

theorem toNat_injective : Function.Injective UInt8.toNat := fun _ _ => UInt8.toNat_inj.mp

/-- Values in the same place of the order read back in the same way. -/
theorem sizeReadsBack_of_rank_eq {h : DBDataTypeHandler} {a b : ExecutionResult} (ha : isOrdered h a = true)
    (hb : isOrdered h b = true) (he : rank a = rank b) (hs : sizeReadsBack a = true) : sizeReadsBack b = true := by
  cases h with
  | int t => cases b <;> simp [isOrdered, hasType] at hb; rfl
  | float t => cases t <;> cases b <;> simp [isOrdered, hasType] at hb <;> rfl
  | string =>
    cases a with
    | string s =>
      cases b with
      | string u =>
        have hm : s.map UInt8.toNat = u.map UInt8.toNat :=
          WithTop.coe_injective (congrArg (fun r : Rank => (ofLex r).2) he)
        rw [List.map_injective_iff.mpr toNat_injective hm] at hs
        exact hs
      | maxString => exact absurd (congrArg (fun r : Rank => (ofLex r).2) he) (WithTop.coe_ne_top)
      | _ => simp [isOrdered, hasType] at hb
    | maxString => simp [sizeReadsBack] at hs
    | _ => simp [isOrdered, hasType] at ha

theorem getSizeAt_ok (conv : Conversions) {h : DBDataTypeHandler} {v : ExecutionResult} {bs : Bytes}
    (ht : hasType h v = true) (hw : h.write conv v = .ok bs) (rest : Bytes) :
    ∃ n, h.getSizeAt (bs ++ rest) = .ok n := by
  cases h with
  | int t => exact ⟨_, rfl⟩
  | float t => exact ⟨_, rfl⟩
  | string =>
    cases v with
    | string s =>
      obtain ⟨rfl, hlt⟩ := write_string_spec conv hw
      exact ⟨_, getSizeAt_string hlt.le s rest⟩
    | maxString =>
      cases hw
      have hs := getSizeAt_string (le_refl maxLength) [] rest
      rw [List.append_nil] at hs
      exact ⟨_, hs⟩
    | _ => simp [hasType] at ht

/-- Bytes that are read as the value of a column, whatever follows them. -/
structure Column (h : DBDataTypeHandler) (bs : Bytes) (v : ExecutionResult) : Prop where
  read : ∀ rest, h.read (bs ++ rest) = .ok v
  size : ∀ rest, ∃ n, h.getSizeAt (bs ++ rest) = .ok n ∧ (sizeReadsBack v = true → n = bs.length)

def Columns : List DBDataType → List Bytes → List ExecutionResult → Prop
  | t :: types, bs :: cs, v :: vs => Column (getHandler t) bs v ∧ Columns types cs vs
  | [], [], [] => True
  | _, _, _ => False

theorem column_of_write (conv : Conversions) {h : DBDataTypeHandler} {v : ExecutionResult} {bs : Bytes}
    (ht : hasType h v = true) (hw : h.write conv v = .ok bs) : Column h bs v where
  read rest := (write_spec conv ht hw rest).1
  size rest := by
    obtain ⟨n, hn⟩ := getSizeAt_ok conv ht hw rest
    refine ⟨n, hn, fun hs => ?_⟩
    rw [(write_spec conv ht hw rest).2.2.mpr hs] at hn
    exact (Except.ok.inj hn).symm

theorem columns_of_columnBytes (conv : Conversions) {types : List DBDataType} {vs : List ExecutionResult}
    (ht : HasTypes types vs) {cs : List Bytes} (hc : columnBytes conv types vs = .ok cs) : Columns types cs vs := by
  induction ht generalizing cs with
  | nil =>
    cases hc
    trivial
  | cons hv _ ih =>
    obtain ⟨bs, cs', rfl, hw, hcs⟩ := columnBytes_cons conv hc
    exact ⟨column_of_write conv hv hw, ih hcs⟩

/-- The comparison of two rows follows the order of their values, whatever bytes come after
them. -/
theorem compare_columns (conv : Conversions) {types : List DBDataType} {ks ss : List ExecutionResult}
    (hk : OrderedTypes types ks) (hs : OrderedTypes types ss) {cs ds : List Bytes}
    (hc : Columns types cs ks) (hd : Columns types ds ss) (hr : Readable ks) (rest rest' : Bytes) :
    DataRow.compare conv types (cs.flatten ++ rest) (ds.flatten ++ rest') =
      .ok (order (ranks ks) (ranks ss)) := by
  induction hk generalizing ss cs ds with
  | nil =>
    cases hs
    simp [DataRow.compare, ranks]
  | @cons t k types ks hk hks ih =>
    cases hs with
    | @cons _ s _ ss hs hss =>
      obtain - | ⟨bs, cs⟩ := cs
      · exact hc.elim
      obtain - | ⟨bs', ds⟩ := ds
      · exact hd.elim
      obtain ⟨hcol, hc⟩ := hc
      obtain ⟨hcol', hd⟩ := hd
      obtain ⟨n, hn, hsize⟩ := hcol.size (cs.flatten ++ rest)
      obtain ⟨m, hm, hsize'⟩ := hcol'.size (ds.flatten ++ rest')
      rw [List.flatten_cons, List.append_assoc, List.flatten_cons, List.append_assoc, DataRow.compare, hcol.read,
        ok_bind, hcol'.read, ok_bind, compare_eq conv hk hs, ok_bind, ranks, ranks, List.map_cons, List.map_cons,
        order_cons, hn, hm]
      by_cases he : rank k = rank s
      · rw [he, order_self]
        cases hks with
        | nil =>
          cases hss
          simp [DataRow.compare]
        | cons hk2 hks2 =>
          have hkr : sizeReadsBack k = true := hr k (by simp)
          rw [hsize hkr, hsize' (sizeReadsBack_of_rank_eq hk hs he hkr)]
          simp only [ne_eq, not_true_eq_false, if_false, ok_bind, List.drop_left]
          exact ih hss hc hd (fun v hv => hr v (by simp [hv]))
      · have hne : order (rank k) (rank s) ≠ .eq := fun h => he (order_eq_eq.mp h)
        rw [if_pos hne]
        cases ho : order (rank k) (rank s) with
        | eq => exact absurd ho hne
        | lt | gt => rfl

theorem compare_row (conv : Conversions) {types : List DBDataType} {ks ss : List ExecutionResult}
    (hk : OrderedTypes types ks) (hs : OrderedTypes types ss) {cs ds : List Bytes}
    (hc : columnBytes conv types ks = .ok cs) (hd : columnBytes conv types ss = .ok ds) (hr : Readable ks)
    (rest rest' : Bytes) :
    DataRow.compare conv types (cs.flatten ++ rest) (ds.flatten ++ rest') =
      .ok (order (ranks ks) (ranks ss)) :=
  compare_columns conv hk hs (columns_of_columnBytes conv hk.hasTypes hc) (columns_of_columnBytes conv hs.hasTypes hd)
    hr rest rest'

end LevelPgServer.KeyOrder
