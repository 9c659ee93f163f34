import LevelPgServer.Server.BinaryParams
import LevelPgServer.Server.BindRounds

/-! What the columns read in the place of a bind value, and the literals that say the same. -/

namespace LevelPgServer

open ByteOrder PgDataWriter ExceptRules

def sentInt (s : Bytes) : Int := (BitVec.ofNat (8 * s.length) (ofBig s)).toInt

/-- The number that a client sends in four or eight bytes. -/
def sentDouble (s : Bytes) : Double :=
  if s.length = 4 then Single.widen ⟨BitVec.ofNat 32 (ofBig s)⟩ else ⟨BitVec.ofNat 64 (ofBig s)⟩

namespace Tools

theorem exists_words {s : Bytes} (h : s.length = 8) :
    ∃ v : BitVec 64, v.toNat = ofBig s ∧
      s = intToBig 4 (v.extractLsb' 32 32).toInt ++ intToBig 4 (v.extractLsb' 0 32).toInt := by
  have hlt : ofBig s < 2 ^ 64 := by
    have := ofBig_lt s
    rw [h] at this
    exact this
  have htake : (s.take 4).length = 4 := by simp [h]
  have hdrop : (s.drop 4).length = 4 := by simp [h]
  have hsplit : ofBig s = ofBig (s.take 4) * 256 ^ 4 + ofBig (s.drop 4) := by
    have happend := ofBig_append (s.take 4) (s.drop 4)
    rwa [List.take_append_drop, hdrop] at happend
  have hlo := ofBig_lt (s.drop 4)
  have hhi := ofBig_lt (s.take 4)
  rw [hdrop] at hlo
  rw [htake] at hhi
  refine ⟨BitVec.ofNat 64 (ofBig s), by rw [BitVec.toNat_ofNat, Nat.mod_eq_of_lt hlt], ?_⟩
  have hword : ∀ {w : BitVec 32} {b : Bytes}, b.length = 4 → w.toNat = ofBig b → intToBig 4 w.toInt = b := by
    intro w b hb hw
    have := toBig_intToBig (n := 4) w
    rw [this, hw, ← hb, toBig_ofBig]
  have hupper : ((BitVec.ofNat 64 (ofBig s)).extractLsb' 32 32).toNat = ofBig (s.take 4) := by
    rw [BitVec.extractLsb'_toNat, BitVec.toNat_ofNat, Nat.mod_eq_of_lt hlt, Nat.shiftRight_eq_div_pow]
    omega
  have hlower : ((BitVec.ofNat 64 (ofBig s)).extractLsb' 0 32).toNat = ofBig (s.drop 4) := by
    rw [BitVec.extractLsb'_toNat, BitVec.toNat_ofNat, Nat.mod_eq_of_lt hlt, Nat.shiftRight_zero]
    omega
  rw [hword htake hupper, hword hdrop hlower, List.take_append_drop]

/-- An integer of two or four bytes loses its sign; eight bytes whose lower word is negative lose the upper one. -/
def takenFor (integer : Bool) (s : Bytes) : Bytes :=
  if s.length = 8 then if sentInt (s.drop 4) < 0 then List.replicate 4 255 ++ s.drop 4 else s
  else if integer = true ∧ (s.length = 2 ∨ s.length = 4) then List.replicate (8 - s.length) 0 ++ s
  else s

theorem msb_lower (v : BitVec 64) : v.getLsbD 31 = decide ((v.extractLsb' 0 32).toInt < 0) := by
  rw [← BitVec.msb_eq_toInt]
  simp [BitVec.msb_eq_getLsbD_last]

theorem eq_of_intToBig {v w : BitVec 32} (h : intToBig 4 v.toInt = intToBig 4 w.toInt) : v = w := by
  have hv := ofBig_intToBig (n := 4) v
  rw [h, ofBig_intToBig (n := 4)] at hv
  exact BitVec.eq_of_toNat_eq hv.symm

theorem joinWords_takenFor (integer : Bool) {s : Bytes} (h : s.length = 8) :
    joinWords s = BitVec.ofNat 64 (ofBig (takenFor integer s)) := by
  obtain ⟨v, hv, hs⟩ := exists_words h
  have hlower : s.drop 4 = intToBig 4 (v.extractLsb' 0 32).toInt := by
    rw [hs, List.drop_left' (length_intToBig 4 _)]
  have hsent : sentInt (s.drop 4) = (v.extractLsb' 0 32).toInt := by
    rw [hlower, sentInt, length_intToBig, ofBig_intToBig (n := 4), BitVec.ofNat_toNat, BitVec.setWidth_eq]
  rw [takenFor, if_pos h, hsent]
  split
  · next hneg =>
    -- The sign bit of the lower word covers the upper one, whatever this is.
    obtain ⟨w, hw, hwords⟩ := exists_words (s := List.replicate 4 255 ++ s.drop 4) (by simp [h])
    obtain ⟨hupper, hrest⟩ := List.append_inj hwords (by simp)
    have hlo : w.extractLsb' 0 32 = v.extractLsb' 0 32 := eq_of_intToBig (hrest.symm.trans hlower)
    have hones : w.extractLsb' 32 32 = BitVec.allOnes 32 := by
      refine BitVec.eq_of_toNat_eq ?_
      rw [← ofBig_intToBig (n := 4), ← hupper]
      rfl
    have hmsb : (v.extractLsb' 0 32).msb = true := by rw [BitVec.msb_eq_toInt, decide_eq_true hneg]
    have hjoin : joinWords s = joinWords (List.replicate 4 255 ++ s.drop 4) := by
      rw [hwords, hs]
      refine BitVec.eq_of_getLsbD_eq fun i hi => ?_
      rw [getLsbD_joinWords hi, getLsbD_joinWords hi, hlo, hmsb, Bool.or_true, Bool.or_true]
    rw [hjoin, hwords, (joinWords_eq_iff w).mpr (.inr hones), ← hwords, ← hw, BitVec.ofNat_toNat, BitVec.setWidth_eq]
  · next hpos =>
    have hintact : BinaryValue.WordsIntact v := .inl ((msb_lower v).trans (decide_eq_false hpos))
    rw [hs, (joinWords_eq_iff v).mpr hintact, ← hs, ← hv, BitVec.ofNat_toNat, BitVec.setWidth_eq]

theorem length_takenFor {integer : Bool} {s : Bytes} (h : s.length = 8) : (takenFor integer s).length = 8 := by
  rw [takenFor, if_pos h]
  split
  · simp [h]
  · exact h

theorem length_takenFor_mem {integer : Bool} {s : Bytes} {lens : List Nat} (h8 : 8 ∈ lens)
    (hshort : integer = true → 2 ∈ lens ∧ 4 ∈ lens) : (takenFor integer s).length ∈ lens ↔ s.length ∈ lens := by
  by_cases hlen : s.length = 8
  · rw [length_takenFor hlen, hlen]
  · rw [takenFor, if_neg hlen]
    split
    · next hshort' =>
      have hlong : (List.replicate (8 - s.length) (0 : UInt8) ++ s).length = 8 := by
        rw [List.length_append, List.length_replicate]
        omega
      rw [hlong]
      refine iff_of_true h8 ?_
      rcases hshort'.2 with h | h
      · exact h ▸ (hshort hshort'.1).1
      · exact h ▸ (hshort hshort'.1).2
    · rfl

theorem binaryToInt_takenFor (s : Bytes) (n : Int) :
    binaryToInt s = .ok n ↔ s.length ∈ [1, 2, 4, 8] ∧ sentInt (takenFor true s) = n := by
  have hshort : ∀ k ∈ [2, 4], s.length = k → sentInt (takenFor true s) = ofBig s := by
    intro k hk hlen
    have hk8 : k ≠ 8 ∧ k < 8 ∧ (k = 2 ∨ k = 4) ∧ 256 ^ k ≤ 2 ^ 32 := by
      rcases List.mem_pair.mp hk with rfl | rfl <;> decide
    have hzero : ofBig (List.replicate (8 - k) 0 ++ s) = ofBig s := by
      rw [ofBig_append, ofBig_replicate_zero, Nat.zero_mul, Nat.zero_add]
    have hlt : ofBig s < 2 ^ 32 := lt_of_lt_of_le (hlen ▸ ofBig_lt s) hk8.2.2.2
    rw [takenFor, hlen, if_neg hk8.1, if_pos ⟨rfl, hk8.2.2.1⟩, sentInt, hzero, List.length_append,
      List.length_replicate, hlen,
      Nat.sub_add_cancel hk8.2.1.le, BitVec.toInt_eq_toNat_of_lt] <;>
        rw [BitVec.toNat_ofNat, Nat.mod_eq_of_lt] <;> omega
  rw [binaryToInt]
  split
  · next hlen =>
    have hsent : sentInt (takenFor true s) = intOfLittle s := by
      obtain ⟨b, rfl⟩ := List.length_eq_one_iff.mp hlen
      rfl
    rw [hsent, Except.ok.injEq]
    exact (and_iff_right (by rw [hlen]; decide)).symm
  · next hlen =>
    rw [hshort 2 (by decide) hlen, Except.ok.injEq]
    exact (and_iff_right (by rw [hlen]; decide)).symm
  · next hlen =>
    rw [hshort 4 (by decide) hlen, Except.ok.injEq]
    exact (and_iff_right (by rw [hlen]; decide)).symm
  · next hlen =>
    have hsent : sentInt (takenFor true s) = (joinWords s).toInt := by
      rw [sentInt, length_takenFor hlen, joinWords_takenFor true hlen]
    rw [hsent, Except.ok.injEq]
    exact (and_iff_right (by rw [hlen]; decide)).symm
  · next h1 h2 h4 h8 =>
    refine iff_of_false (by rintro ⟨⟩) fun h => ?_
    have hmem := h.1
    simp only [List.mem_cons, List.not_mem_nil, or_false] at hmem
    rcases hmem with hlen | hlen | hlen | hlen
    · exact h1 hlen
    · exact h2 hlen
    · exact h4 hlen
    · exact h8 hlen

theorem binaryToDouble_takenFor (s : Bytes) (d : Double) :
    binaryToDouble s = .ok d ↔ s.length ∈ [4, 8] ∧ sentDouble (takenFor false s) = d := by
  rw [binaryToDouble]
  split
  · next hlen =>
    have hsame : takenFor false s = s := by rw [takenFor, if_neg (by omega), if_neg (by simp)]
    rw [hsame, sentDouble, if_pos hlen, Except.ok.injEq]
    exact (and_iff_right (by rw [hlen]; decide)).symm
  · next hlen =>
    rw [sentDouble, if_neg (by rw [length_takenFor hlen]; decide), joinWords_takenFor false hlen, Except.ok.injEq]
    exact (and_iff_right (by rw [hlen]; decide)).symm
  · next h4 h8 =>
    refine iff_of_false (by rintro ⟨⟩) fun h => ?_
    rcases List.mem_pair.mp h.1 with hlen | hlen
    · exact h4 hlen
    · exact h8 hlen

end Tools

open ParseNode (NodeType)
open Tools (takenFor binaryToInt_takenFor binaryToDouble_takenFor)

namespace ParamNode

def ofBind (p : Bool × Bytes) : ParamNode := ⟨if p.1 then .binaryParam else .textParam, p.2⟩

def toNode (sExpr : Bytes) (n : ParamNode) : ParseNode := .node .param n.op sExpr n.value []

end ParamNode

/-- The type of the literals that are written for a column. -/
def literalType : DBDataType → NodeType
  | .int16 | .int32 | .int64 => .int
  | .float | .double => .float
  | .date | .datetime => .date
  | .bool | .string | .bytes => .str

/-- What a bind value stands for in a column: a text the same as in a literal, bytes a number. -/
def standsFor (conv : Conversions) (c : DBDataType) : Bool × Bytes → Option ExecutionResult
  | (false, s) => (DBDataTypeHandler.fromString conv c s).toOption
  | (true, s) =>
    match c with
    | .bool => if s.length ∈ [1, 2, 4, 8] then some (.int (if sentInt s = 0 then 0 else 1)) else none
    | .int16 | .int32 | .int64 => if s.length ∈ [1, 2, 4, 8] then some (.int (sentInt s)) else none
    | .float | .double => if s.length ∈ [4, 8] then some (.double (sentDouble s)) else none
    | .date | .datetime | .string | .bytes => none

def takenAs (c : DBDataType) (v : Bool × Bytes) : Bool × Bytes :=
  match c with
  | .bool | .int16 | .int32 | .int64 => (v.1, if v.1 then takenFor true v.2 else v.2)
  | .float | .double => (v.1, if v.1 then takenFor false v.2 else v.2)
  | _ => v

inductive Writes (conv : Conversions) (c : DBDataType) : Bool × Bytes → ParseNode → Prop
  | text (s sExpr : Bytes) : Writes conv c (false, s) (.node (literalType c) .none sExpr s [])
  | bool (hc : c = .bool) {s : Bytes} (hlen : s.length ∈ [1, 2, 4, 8]) (sExpr : Bytes) :
      Writes conv c (true, s) (.node .str .none sExpr (bytes (if sentInt s = 0 then "false" else "true")) [])
  | int (hc : c ∈ [.int16, .int32, .int64]) {s t : Bytes} (hlen : s.length ∈ [1, 2, 4, 8]) (ht : t ≠ [])
      (hread : conv.simpleAtoi t = some (sentInt s)) (sExpr : Bytes) :
        Writes conv c (true, s) (.node .int .none sExpr t [])
  | float (hc : c ∈ [.float, .double]) {s t : Bytes} (hlen : s.length ∈ [4, 8]) (ht : t ≠ [])
      (hread : conv.simpleAtod t = some (sentDouble s)) (sExpr : Bytes) :
        Writes conv c (true, s) (.node .float .none sExpr t [])

namespace DBDataTypeHandler

variable (conv : Conversions)

theorem checkValue_of_stringToInt {t : IntType} {s : Bytes} {n : Int} (h : stringToInt conv t s = .ok n) :
    t.checkValue n = .ok () := by
  rw [stringToInt] at h
  split at h
  · cases h
    cases t <;> rfl
  · split at h
    · cases h
    · obtain ⟨_, hcheck, hn⟩ := bind_eq_ok.mp h
      cases hn
      exact hcheck

theorem fromIntNode_literal (t : IntType) (s sExpr : Bytes) {r : ExecutionResult} :
    fromIntNode conv t (.node .int .none sExpr s []) = .ok r ↔ (stringToInt conv t s).map .int = .ok r := by
  rw [fromIntNode, show intOfNode conv t (.node .int .none sExpr s []) = stringToInt conv t s from rfl]
  cases hs : stringToInt conv t s with
  | error f => exact iff_of_false (by rintro ⟨⟩) (by rintro ⟨⟩)
  | ok n =>
    simp only [Bind.bind, Except.bind, checkValue_of_stringToInt conv hs]
    rfl

theorem fromNode_literal (c : DBDataType) (s sExpr : Bytes) {r : ExecutionResult} :
    fromNode conv c (.node (literalType c) .none sExpr s []) = .ok r ↔ fromString conv c s = .ok r := by
  cases c with
  | int16 | int32 | int64 => exact fromIntNode_literal conv _ s sExpr
  | _ => exact Iff.rfl

theorem fromNode_textParam (c : DBDataType) (s sExpr sExpr' : Bytes) {r : ExecutionResult} :
    fromNode conv c ((ParamNode.ofBind (false, s)).toNode sExpr) = .ok r ↔
      fromNode conv c (.node (literalType c) .none sExpr' s []) = .ok r := by
  cases c <;> exact Iff.rfl

variable {conv} {c : DBDataType} {v w : Bool × Bytes} {lit : ParseNode} {r : ExecutionResult}

theorem fromIntNode_eq_ok {t : IntType} {pValue : ParseNode} :
    fromIntNode conv t pValue = .ok r ↔ ∃ n, intOfNode conv t pValue = .ok n ∧ t.checkValue n = .ok () ∧
      .int n = r := by
  rw [fromIntNode]
  constructor
  · intro h
    obtain ⟨n, hn, h⟩ := bind_eq_ok.mp h
    obtain ⟨_, hcheck, h⟩ := bind_eq_ok.mp h
    cases h
    exact ⟨n, hn, hcheck, rfl⟩
  · rintro ⟨n, hn, hcheck, rfl⟩
    exact bind_eq_ok.mpr ⟨n, hn, bind_eq_ok.mpr ⟨(), hcheck, rfl⟩⟩

theorem fromFloatNode_eq_ok {t : FloatType} {pValue : ParseNode} :
    fromFloatNode conv t pValue = .ok r ↔
      ∃ d, doubleOfNode conv pValue = .ok d ∧ t.checkValue conv d = .ok () ∧ .double d = r := by
  rw [fromFloatNode]
  constructor
  · intro h
    obtain ⟨n, hn, h⟩ := bind_eq_ok.mp h
    obtain ⟨_, hcheck, h⟩ := bind_eq_ok.mp h
    cases h
    exact ⟨n, hn, hcheck, rfl⟩
  · rintro ⟨n, hn, hcheck, rfl⟩
    exact bind_eq_ok.mpr ⟨n, hn, bind_eq_ok.mpr ⟨(), hcheck, rfl⟩⟩

theorem fromBoolNode_eq_ok {pValue : ParseNode} :
    fromBoolNode pValue = .ok r ↔ ∃ b, boolOfNode pValue = .ok b ∧ .int (if b then 1 else 0) = r := by
  rw [fromBoolNode, bind_eq_ok]
  refine exists_congr fun b => and_congr_right fun _ => ?_
  rw [pure_eq_ok, Except.ok.injEq]

/-- The node of a bind value is read as the value that the column takes it for, where that is a value of the column. -/
theorem fromNode_bind_iff (hr : fromNode conv c lit = .ok r) (sExpr : Bytes) :
    fromNode conv c ((ParamNode.ofBind v).toNode sExpr) = .ok r ↔ standsFor conv c (takenAs c v) = some r := by
  obtain ⟨binary, s⟩ := v
  cases binary with
  | false =>
    have htaken : takenAs c (false, s) = (false, s) := by cases c <;> rfl
    rw [htaken, fromNode_textParam conv c s sExpr [], fromNode_literal, standsFor]
    cases fromString conv c s <;> simp [Except.toOption]
  | true =>
    have hlens : (takenFor true s).length ∈ [1, 2, 4, 8] ↔ s.length ∈ [1, 2, 4, 8] :=
      Tools.length_takenFor_mem (by decide) (by decide)
    have hint : ∀ t : IntType, fromIntNode conv t lit = .ok r →
        (fromIntNode conv t ((ParamNode.ofBind (true, s)).toNode sExpr) = .ok r ↔
          (if (takenFor true s).length ∈ [1, 2, 4, 8] then some
            (ExecutionResult.int (sentInt (takenFor true s))) else none) =
            some r) := by
      intro t hr
      obtain ⟨m, -, hcheck, rfl⟩ := fromIntNode_eq_ok.mp hr
      rw [fromIntNode_eq_ok]
      constructor
      · rintro ⟨n, hn, -, hnm⟩
        obtain ⟨hlen, hsent⟩ := (binaryToInt_takenFor s n).mp hn
        rw [if_pos (hlens.mpr hlen), hsent, hnm]
      · intro h
        split at h
        · next hlen =>
          cases h
          exact ⟨_, (binaryToInt_takenFor s _).mpr ⟨hlens.mp hlen, rfl⟩, hcheck, rfl⟩
        · cases h
    have hfloat : ∀ t : FloatType, fromFloatNode conv t lit = .ok r →
        (fromFloatNode conv t ((ParamNode.ofBind (true, s)).toNode sExpr) = .ok r ↔
          (if (takenFor false s).length ∈ [4, 8] then some
            (ExecutionResult.double (sentDouble (takenFor false s))) else none) =
            some r) := by
      intro t hr
      obtain ⟨m, -, hcheck, rfl⟩ := fromFloatNode_eq_ok.mp hr
      have hlens : (takenFor false s).length ∈ [4, 8] ↔ s.length ∈ [4, 8] :=
        Tools.length_takenFor_mem (by decide) (by simp)
      rw [fromFloatNode_eq_ok]
      constructor
      · rintro ⟨d, hd, -, hdm⟩
        obtain ⟨hlen, hsent⟩ := (binaryToDouble_takenFor s d).mp hd
        rw [if_pos (hlens.mpr hlen), hsent, hdm]
      · intro h
        split at h
        · next hlen =>
          cases h
          exact ⟨_, (binaryToDouble_takenFor s _).mpr ⟨hlens.mp hlen, rfl⟩, hcheck, rfl⟩
        · cases h
    cases c with
    | int16 | int32 | int64 => exact hint _ hr
    | float | double => exact hfloat _ hr
    | bool =>
      obtain ⟨b, -, rfl⟩ := fromBoolNode_eq_ok.mp hr
      refine fromBoolNode_eq_ok.trans ?_
      rw [show standsFor conv .bool (takenAs .bool (true, s)) = if (takenFor true s).length ∈ [1, 2, 4, 8] then
        some (.int (if sentInt (takenFor true s) = 0 then 0 else 1)) else none from rfl]
      constructor
      · rintro ⟨b', hb', hbb⟩
        obtain ⟨n, hn, hb'⟩ := bind_eq_ok.mp (show (Tools.binaryToInt s >>= fun n => pure (n != 0)) = .ok b' from hb')
        cases hb'
        obtain ⟨hlen, hsent⟩ := (binaryToInt_takenFor s n).mp hn
        rw [if_pos (hlens.mpr hlen), hsent, ← hbb]
        by_cases hzero : n = 0 <;> simp [hzero]
      · intro h
        split at h
        · next hlen =>
          have hread := (binaryToInt_takenFor s _).mpr ⟨hlens.mp hlen, rfl⟩
          refine ⟨sentInt (takenFor true s) != 0, ?_, ?_⟩
          · exact bind_eq_ok.mpr ⟨_, hread, rfl⟩
          · rw [← Option.some.inj h]
            by_cases hzero : sentInt (takenFor true s) = 0 <;> simp [hzero]
        · cases h
    | date | datetime | string | bytes => exact iff_of_false (by rintro ⟨⟩) (by rintro ⟨⟩)

end DBDataTypeHandler

theorem Writes.standsFor_eq {conv : Conversions} {c : DBDataType} {v : Bool × Bytes} {lit : ParseNode}
    {r : ExecutionResult}
    (hw : Writes conv c v lit) (hr : DBDataTypeHandler.fromNode conv c lit = .ok r) : standsFor conv c v = some r := by
  cases hw with
  | text s sExpr =>
    rw [DBDataTypeHandler.fromNode_literal] at hr
    rw [standsFor, hr]
    rfl
  | @bool hc s hlen sExpr =>
    subst hc
    rw [standsFor, if_pos hlen]
    by_cases hzero : sentInt s = 0
    · rw [if_pos hzero] at hr ⊢
      exact congrArg some (Except.ok.inj ((show _ = Except.ok (ExecutionResult.int 0) from rfl).symm.trans hr))
    · rw [if_neg hzero] at hr ⊢
      exact congrArg some (Except.ok.inj ((show _ = Except.ok (ExecutionResult.int 1) from rfl).symm.trans hr))
  | @int hc s t hlen ht hread sExpr =>
    have hvalue : ∀ type : IntType, DBDataTypeHandler.fromIntNode conv type (.node .int .none sExpr t []) = .ok r →
        some (ExecutionResult.int (sentInt s)) = some r := by
      intro type hr
      obtain ⟨n, hn, -, rfl⟩ := DBDataTypeHandler.fromIntNode_eq_ok.mp hr
      have hstring : DBDataTypeHandler.stringToInt conv type t = .ok n := hn
      rw [DBDataTypeHandler.stringToInt, if_neg ht, hread] at hstring
      obtain ⟨_, -, hn⟩ := bind_eq_ok.mp hstring
      cases hn
      rfl
    simp only [List.mem_cons, List.not_mem_nil, or_false] at hc
    rcases hc with rfl | rfl | rfl
    all_goals
      rw [standsFor, if_pos hlen]
      exact hvalue _ hr
  | @float hc s t hlen ht hread sExpr =>
    have hvalue : ∀ type : FloatType, DBDataTypeHandler.fromFloatNode conv type
      (.node .float .none sExpr t []) = .ok r →
        some (ExecutionResult.double (sentDouble s)) = some r := by
      intro type hr
      obtain ⟨d, hd, -, rfl⟩ := DBDataTypeHandler.fromFloatNode_eq_ok.mp hr
      have hstring : DBDataTypeHandler.stringToDouble conv t = .ok d := hd
      rw [DBDataTypeHandler.stringToDouble, if_neg ht, hread] at hstring
      cases hstring
      rfl
    rcases List.mem_pair.mp hc with rfl | rfl
    all_goals
      rw [standsFor, if_pos hlen]
      exact hvalue _ hr

end LevelPgServer
