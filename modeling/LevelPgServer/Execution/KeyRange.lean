import LevelPgServer.Execution.FilterPlan
import LevelPgServer.Lib.LexRange

namespace LevelPgServer.KeyRange

open ParseNode DBDataTypeHandler DataRow KeyOrder KeySearchRange ExceptRules ThreeWay LexRange

variable (conv : Conversions)

def isEndOp (op : Operation) : Bool := op == .compLt || op == .compLe

def isStartOp (op : Operation) : Bool := op == .compGt || op == .compGe

/-- What `setPredicateInfo` leaves in the end predicate. -/
structure EndForm (ep : KeyPredicateInfo) : Prop where
  isEnd : ∀ m, ep.keyIndex = some m → isEndOp ep.op = true
  isNone : ep.keyIndex = none → ep.op = .none

def clearEnd (ep : KeyPredicateInfo) : KeyPredicateInfo := { ep with op := .none, keyIndex := none }

/-- The end predicate as an equality at column `i` leaves it. -/
def afterEq (i : Nat) (ep : KeyPredicateInfo) : KeyPredicateInfo :=
  if ep.keyIndex = some i then clearEnd ep else ep

def clear (info : KeyPredicateInfo) : KeyPredicateInfo := { info with op := .none }

/-- The comparisons that the range from column `i` on stands for, with their columns:
equalities, and after them at most one start and one end. -/
def used : Nat → List KeyPredicateInfo → KeyPredicateInfo → List (Nat × KeyPredicateInfo)
  | _, [], _ => []
  | i, info :: infos, ep =>
    if info.op = .compEq then (i, info) :: used (i + 1) infos (afterEq i ep)
    else (if ep.keyIndex = some i then [(i, ep)] else []) ++ (if isStartOp info.op then [(i, info)] else [])

theorem EndForm.clearEnd (ep : KeyPredicateInfo) : EndForm (clearEnd ep) where
  isEnd m hm := by cases hm
  isNone _ := rfl

theorem EndForm.afterEq {ep : KeyPredicateInfo} (h : EndForm ep) (i : Nat) : EndForm (afterEq i ep) := by
  unfold KeyRange.afterEq
  split
  · exact EndForm.clearEnd ep
  · exact h

theorem endStep_of_ne {s : Scan} {i : Nat} (h : s.endPredicate.keyIndex ≠ some i) (info : KeyPredicateInfo) :
    s.endStep i info = s := by
  unfold Scan.endStep
  split <;> simp [h]

theorem endStep_of_eq {s : Scan} {i : Nat} (hf : EndForm s.endPredicate) (h : s.endPredicate.keyIndex = some i)
    (info : KeyPredicateInfo) :
    s.endStep i info =
      if !s.keyValid ∨ info.op = .compEq then { s with endPredicate := clearEnd s.endPredicate }
      else { s with
        endInclusive := s.endPredicate.op == .compLe
        keyValid := false
        solved := s.endPredicate.sExpr :: s.solved
        seekToLast := false } := by
  have hop := hf.isEnd i h
  unfold Scan.endStep
  split
  · simp [h, KeyRange.clearEnd]
  · simp [h, KeyRange.clearEnd]
  · next h1 h2 =>
    rcases (show s.endPredicate.op = .compLt ∨ s.endPredicate.op = .compLe by simpa [isEndOp] using hop) with h | h
    · exact absurd h h1
    · exact absurd h h2

theorem startStep_none {s : Scan} {info : KeyPredicateInfo} (h : info.op = .none) :
    s.startStep info = { s with keyValid := false } := by simp [Scan.startStep, h]

/-- Behind the first column without an equality the loop only drops predicates. -/
theorem scan_invalid (infos : List KeyPredicateInfo) (i : Nat) (s : Scan) (hv : s.keyValid = false)
    (hf : EndForm s.endPredicate) :
    ∃ ep, scanPredicates i infos s = (infos.map clear, { s with endPredicate := ep }) ∧
      (ep = s.endPredicate ∨ ep.keyIndex = none) ∧
        (∀ j, i ≤ j → j < i + infos.length → ep.keyIndex ≠ some j) ∧
          (∀ m < i, s.endPredicate.keyIndex = some m → ep = s.endPredicate) := by
  induction infos generalizing i s with
  | nil => exact ⟨s.endPredicate, rfl, .inl rfl, fun j h1 h2 => by simp at h2; omega, fun _ _ _ => rfl⟩
  | cons info infos ih =>
    have hnone : ∀ t : Scan, t.keyValid = false → t.startStep (clear info) = t := by
      intro t ht
      rw [startStep_none rfl]
      cases t
      simp_all
    have hstep : s.step i info = (clear info, (s.endStep i (clear info)).startStep (clear info)) := by
      simp [Scan.step, hv, clear]
    rw [scanPredicates, hstep]
    by_cases hk : s.endPredicate.keyIndex = some i
    · have he : s.endStep i (clear info) = { s with endPredicate := clearEnd s.endPredicate } := by
        rw [endStep_of_eq hf hk, hv]
        simp
      rw [he, hnone { s with endPredicate := clearEnd s.endPredicate } hv]
      obtain ⟨ep, hscan, hor, hne, -⟩ := ih (i + 1) { s with endPredicate := clearEnd s.endPredicate } hv
        (EndForm.clearEnd _)
      have hn : ep.keyIndex = none := by
        rcases hor with rfl | hor
        · rfl
        · exact hor
      refine ⟨ep, by rw [hscan]; rfl, .inr hn, fun j _ _ => by simp [hn], fun m hm hkm => ?_⟩
      rw [hk] at hkm
      cases hkm
      omega
    · rw [endStep_of_ne hk, hnone s hv]
      obtain ⟨ep, hscan, hor, hne, hlt⟩ := ih (i + 1) s hv hf
      refine ⟨ep, by rw [hscan]; rfl, hor, fun j h1 h2 => ?_, fun m hm => hlt m (by omega)⟩
      rcases Nat.eq_or_lt_of_le h1 with rfl | h1
      · rcases hor with rfl | hor
        · exact hk
        · simp [hor]
      · exact hne j h1 (by simp only [List.length_cons] at h2; omega)

def pad (max : Bool) (types : List DBDataType) : List ExecutionResult :=
  types.map (fun t => if max then (getHandler t).setToMax else (getHandler t).setToMin)

theorem keyResults_clear (ep : KeyPredicateInfo) (nsm nem : Bool) (types : List DBDataType)
    (infos : List KeyPredicateInfo) (i : Nat) (hlen : types.length = infos.length)
    (hne : ∀ j, i ≤ j → j < i + infos.length → ep.keyIndex ≠ some j) :
    keyResults conv ep i nsm nem types (infos.map clear) = .ok (pad nsm types, pad nem types) := by
  induction types generalizing i infos with
  | nil =>
    cases infos with
    | nil => rfl
    | cons info infos => cases hlen
  | cons t types ih =>
    cases infos with
    | nil => cases hlen
    | cons info infos =>
      have hi : ep.keyIndex ≠ some i := hne i le_rfl (by simp)
      have hrec := ih infos (i + 1) (by simpa using hlen)
        (fun j h1 h2 => hne j (by omega) (by simp only [List.length_cons]; omega))
      rw [List.map_cons, keyResults]
      simp [clear, startValue, endValue, updateStartMax, hi]
      rw [hrec]
      rfl

theorem scan_cons_eq {info : KeyPredicateInfo} {infos : List KeyPredicateInfo} {i : Nat} {s : Scan}
    (hv : s.keyValid = true) (hf : EndForm s.endPredicate) (heq : info.op = .compEq) :
    scanPredicates i (info :: infos) s =
      (info :: (scanPredicates (i + 1) infos
          { s with
            endPredicate := afterEq i s.endPredicate
            solved := info.sExpr :: s.solved
            seekToFirst := false
            seekToLast := false }).1,
        (scanPredicates (i + 1) infos
          { s with
            endPredicate := afterEq i s.endPredicate
            solved := info.sExpr :: s.solved
            seekToFirst := false
            seekToLast := false }).2) := by
  have hend : s.endStep i info = { s with endPredicate := afterEq i s.endPredicate } := by
    by_cases hk : s.endPredicate.keyIndex = some i
    · rw [endStep_of_eq hf hk]
      simp [heq, afterEq, hk]
    · rw [endStep_of_ne hk]
      simp [afterEq, hk]
  simp only [scanPredicates, Scan.step, hv, if_true, hend]
  simp [Scan.startStep, heq]

/-- A column without an equality ends it; a start and an end there are still taken. -/
theorem scan_cons_ne {info : KeyPredicateInfo} {infos : List KeyPredicateInfo} {i : Nat} {s : Scan}
    (hv : s.keyValid = true) (hf : EndForm s.endPredicate) (hop : info.op = .none ∨ isStartOp info.op = true) :
    ∃ ep, scanPredicates i (info :: infos) s =
        (info :: infos.map clear,
          { endPredicate := ep
            startInclusive := if isStartOp info.op then info.op == .compGe else s.startInclusive
            endInclusive := if s.endPredicate.keyIndex = some i then s.endPredicate.op == .compLe else s.endInclusive
            seekToFirst := s.seekToFirst && !isStartOp info.op
            seekToLast := s.seekToLast && s.endPredicate.keyIndex != some i
            keyValid := false
            solved := (if isStartOp info.op then [info.sExpr] else []) ++
              ((if s.endPredicate.keyIndex = some i then [s.endPredicate.sExpr] else []) ++ s.solved) }) ∧
      (s.endPredicate.keyIndex = some i → ep = s.endPredicate) ∧
        (s.endPredicate.keyIndex ≠ some i → ep.keyIndex ≠ some i) ∧
          ∀ j, i + 1 ≤ j → j < i + 1 + infos.length → ep.keyIndex ≠ some j := by
  have hne : info.op ≠ .compEq := by
    rintro h
    rcases hop with hop | hop <;> simp [h, isStartOp] at hop
  let s' : Scan := (s.endStep i info).startStep info
  have hs : s' =
      { endPredicate := s.endPredicate
        startInclusive := if isStartOp info.op then info.op == .compGe else s.startInclusive
        endInclusive := if s.endPredicate.keyIndex = some i then s.endPredicate.op == .compLe else s.endInclusive
        seekToFirst := s.seekToFirst && !isStartOp info.op
        seekToLast := s.seekToLast && s.endPredicate.keyIndex != some i
        keyValid := false
        solved := (if isStartOp info.op then [info.sExpr] else []) ++
          ((if s.endPredicate.keyIndex = some i then [s.endPredicate.sExpr] else []) ++ s.solved) } := by
    have hend : s.endStep i info =
        { s with
          endInclusive := if s.endPredicate.keyIndex = some i then s.endPredicate.op == .compLe else s.endInclusive
          keyValid := s.endPredicate.keyIndex != some i
          solved := (if s.endPredicate.keyIndex = some i then [s.endPredicate.sExpr] else []) ++ s.solved
          seekToLast := s.seekToLast && s.endPredicate.keyIndex != some i } := by
      by_cases hk : s.endPredicate.keyIndex = some i
      · rw [endStep_of_eq hf hk]
        simp [hv, hne, hk]
      · rw [endStep_of_ne hk]
        cases s
        simp_all
    rw [show s' = (s.endStep i info).startStep info from rfl, hend]
    rcases hop with hop | hop
    · simp [Scan.startStep, hop, isStartOp]
    · rcases (show info.op = .compGt ∨ info.op = .compGe by simpa [isStartOp] using hop) with h | h
      · simp [Scan.startStep, h, isStartOp]
      · simp [Scan.startStep, h, isStartOp]
  obtain ⟨ep, hscan, hor, hnej, hlt⟩ := scan_invalid infos (i + 1) s' (by rw [hs]) (by rw [hs]; exact hf)
  refine ⟨ep, ?_, fun hk => ?_, fun hk => ?_, hnej⟩
  · rw [scanPredicates, Scan.step, hv]
    simp only [if_true]
    rw [show (s.endStep i info).startStep info = s' from rfl, hscan, hs]
  · rw [hlt i (by omega) (by rw [hs]; exact hk), hs]
  · rcases hor with rfl | hor
    · rw [hs]
      exact hk
    · simp [hor]

theorem le_of_mem_used {i : Nat} {infos : List KeyPredicateInfo} {ep : KeyPredicateInfo}
    {p : Nat × KeyPredicateInfo} (h : p ∈ used i infos ep) : i ≤ p.1 := by
  induction infos generalizing i ep with
  | nil => simp [used] at h
  | cons info infos ih =>
    rw [used] at h
    split at h
    · rcases List.mem_cons.mp h with rfl | h
      · exact le_rfl
      · exact (Nat.le_succ i).trans (ih h)
    · rcases List.mem_append.mp h with h | h
      · split at h <;> simp at h
        rw [h]
      · split at h <;> simp at h
        rw [h]

/-- The operators that `setPredicateInfo` stores for a key column. -/
def StartForm (info : KeyPredicateInfo) : Prop :=
  info.op = .none ∨ info.op = .compEq ∨ isStartOp info.op = true

theorem mem_solved {infos : List KeyPredicateInfo} (hform : ∀ info ∈ infos, StartForm info) (i : Nat) (s : Scan)
    (hv : s.keyValid = true) (hf : EndForm s.endPredicate) (x : Bytes) :
    x ∈ (scanPredicates i infos s).2.solved ↔
      x ∈ s.solved ∨ ∃ p ∈ used i infos s.endPredicate, p.2.sExpr = x := by
  induction infos generalizing i s with
  | nil => simp [scanPredicates, used]
  | cons info infos ih =>
    by_cases heq : info.op = .compEq
    · rw [scan_cons_eq hv hf heq, used, if_pos heq]
      rw [ih (fun c hc => hform c (by simp [hc])) (i + 1)
        { s with
          endPredicate := afterEq i s.endPredicate
          solved := info.sExpr :: s.solved
          seekToFirst := false
          seekToLast := false } hv (hf.afterEq i)]
      simp only [List.mem_cons, exists_eq_or_imp]
      tauto
    · have hop : info.op = .none ∨ isStartOp info.op = true := by
        rcases hform info (by simp) with h | h | h
        · exact .inl h
        · exact absurd h heq
        · exact .inr h
      obtain ⟨ep, hscan, -⟩ := @scan_cons_ne _ infos _ _ hv hf hop
      rw [hscan, used, if_neg heq]
      by_cases hk : s.endPredicate.keyIndex = some i <;> cases ho : isStartOp info.op <;> simp [hk] <;> tauto

/-- The values a key column can hold: ordered, and not beyond the ends of its type. -/
structure Bounded (h : DBDataTypeHandler) (v : ExecutionResult) : Prop where
  ordered : isOrdered h v = true
  min_le : rank h.setToMin ≤ rank v
  le_max : rank v ≤ rank h.setToMax

abbrev BoundedTypes (types : List DBDataType) (ks : List ExecutionResult) : Prop :=
  List.Forall₂ (fun t v => Bounded (getHandler t) v) types ks

theorem pad_le {types : List DBDataType} {ks : List ExecutionResult} (h : BoundedTypes types ks) :
    ranks (pad false types) ≤ ranks ks := by
  apply le_of_forall₂
  induction h with
  | nil => exact .nil
  | cons hv _ ih => exact .cons hv.min_le ih

theorem le_pad {types : List DBDataType} {ks : List ExecutionResult} (h : BoundedTypes types ks) :
    ranks ks ≤ ranks (pad true types) := by
  apply le_of_forall₂
  induction h with
  | nil => exact .nil
  | cons hv _ ih => exact .cons hv.le_max ih

/-- The value `k` of a column of type `t` compares with the constant as `op` asks. -/
def ColumnHolds (t : DBDataType) (op : Operation) (value : ParseNode) (k : ExecutionResult) : Prop :=
  ∃ v, fromNode conv t value = .ok v ∧ FilterPlan.accepts op (order (rank k) (rank v)) = some true

/-- The comparison `p.2` holds of column `p.1` of a key, the columns counted from `i` on. -/
def InfoHolds (i : Nat) (types : List DBDataType) (ks : List ExecutionResult) (p : Nat × KeyPredicateInfo) : Prop :=
  ∃ t k, types[p.1 - i]? = some t ∧ ks[p.1 - i]? = some k ∧ ColumnHolds conv t p.2.op p.2.value k

theorem infoHolds_head {i : Nat} {t : DBDataType} {types : List DBDataType} {k : ExecutionResult}
    {ks : List ExecutionResult} {info : KeyPredicateInfo} :
    InfoHolds conv i (t :: types) (k :: ks) (i, info) ↔ ColumnHolds conv t info.op info.value k := by
  simp [InfoHolds]

theorem infoHolds_tail {i : Nat} {t : DBDataType} {types : List DBDataType} {k : ExecutionResult}
    {ks : List ExecutionResult} {p : Nat × KeyPredicateInfo} (h : i + 1 ≤ p.1) :
    InfoHolds conv i (t :: types) (k :: ks) p ↔ InfoHolds conv (i + 1) types ks p := by
  obtain ⟨j, hj⟩ : ∃ j, p.1 - i = j + 1 := ⟨p.1 - i - 1, by omega⟩
  have hj' : p.1 - (i + 1) = j := by omega
  simp [InfoHolds, hj, hj']

theorem columnHolds_iff {t : DBDataType} {op : Operation} {value : ParseNode} {k v : ExecutionResult}
    (hv : fromNode conv t value = .ok v) :
    ColumnHolds conv t op value k ↔ FilterPlan.accepts op (order (rank k) (rank v)) = some true := by
  simp [ColumnHolds, hv]

theorem afterStart_iff {t : DBDataType} {types : List DBDataType} {info : KeyPredicateInfo}
    {start k : ExecutionResult} {ks : List ExecutionResult} (hop : info.op = .none ∨ isStartOp info.op = true)
    (hs : startValue conv t info false = .ok start) (hk : Bounded (getHandler t) k) (hks : BoundedTypes types ks) :
    AfterStart (if isStartOp info.op then info.op == .compGe else true)
        (ranks (start :: pad (info.op == .compGt) types)) (ranks (k :: ks)) ↔
      (isStartOp info.op = true → ColumnHolds conv t info.op info.value k) := by
  rcases hop with hop | hop
  · rw [startValue, hop] at hs
    cases hs
    have hmin := hk.min_le
    simp only [hop, isStartOp, ranks, List.map_cons]
    rw [show ((Operation.none == Operation.compGt) = false) from rfl, if_neg (by decide)]
    exact ⟨fun _ h => absurd h (by decide), fun _ => (afterStart_cons_least (pad_le hks)).mpr hmin⟩
  · rcases (show info.op = .compGt ∨ info.op = .compGe by simpa [isStartOp] using hop) with h | h
    · rw [startValue, h] at hs
      rw [columnHolds_iff conv hs]
      simp only [h, isStartOp, ranks, List.map_cons]
      rw [show ((Operation.compGt == Operation.compGt) = true) from rfl, if_pos (by decide),
        show ((Operation.compGt == Operation.compGe) = false) from rfl]
      refine (afterStart_cons_greatest (le_pad hks)).trans ?_
      simp [FilterPlan.accepts, order_eq_gt]
    · rw [startValue, h] at hs
      rw [columnHolds_iff conv hs]
      simp only [h, isStartOp, ranks, List.map_cons]
      rw [show ((Operation.compGe == Operation.compGt) = false) from rfl, if_pos (by decide),
        show ((Operation.compGe == Operation.compGe) = true) from rfl]
      refine (afterStart_cons_least (pad_le hks)).trans ?_
      simp [FilterPlan.accepts, order_eq_lt]

theorem beforeEnd_iff {t : DBDataType} {types : List DBDataType} {i : Nat} {ep : KeyPredicateInfo}
    {last k : ExecutionResult} {ks : List ExecutionResult} (hf : EndForm ep)
    (hl : endValue conv t i ep true = .ok last) (hk : Bounded (getHandler t) k) (hks : BoundedTypes types ks) :
    BeforeEnd (if ep.keyIndex = some i then ep.op == .compLe else true)
        (ranks (last :: pad (if ep.keyIndex = some i then ep.op == .compLe else true) types)) (ranks (k :: ks)) ↔
      (ep.keyIndex = some i → ColumnHolds conv t ep.op ep.value k) := by
  by_cases hi : ep.keyIndex = some i
  · rw [endValue, if_pos hi] at hl
    rw [columnHolds_iff conv hl]
    simp only [hi, if_true, ranks, List.map_cons, forall_const]
    rcases (show ep.op = .compLt ∨ ep.op = .compLe by simpa [isEndOp] using hf.isEnd i hi) with h | h
    · rw [h, show ((Operation.compLt == Operation.compLe) = false) from rfl]
      refine (beforeEnd_cons_least (pad_le hks)).trans ?_
      simp [FilterPlan.accepts, order_eq_lt]
    · rw [h, show ((Operation.compLe == Operation.compLe) = true) from rfl]
      refine (beforeEnd_cons_greatest (le_pad hks)).trans ?_
      simp [FilterPlan.accepts, order_eq_gt]
  · rw [endValue, if_neg hi] at hl
    cases hl
    simp only [if_neg hi, ranks, List.map_cons, if_true]
    exact ⟨fun _ h => absurd h hi, fun _ => (beforeEnd_cons_greatest (le_pad hks)).mpr hk.le_max⟩

theorem keyResults_cons_eq {ep info : KeyPredicateInfo} {i : Nat} {nsm nem : Bool} {t : DBDataType}
    {types : List DBDataType} {infos : List KeyPredicateInfo} {ss es : List ExecutionResult} (heq : info.op = .compEq)
    (h : keyResults conv ep i nsm nem (t :: types) (info :: infos) = .ok (ss, es)) :
    ∃ v ss' es', fromNode conv t info.value = .ok v ∧ ss = v :: ss' ∧ es = v :: es' ∧
      keyResults conv ep (i + 1) nsm nem types infos = .ok (ss', es') := by
  obtain ⟨v, hv, h⟩ := bind_eq_ok.mp h
  rw [if_pos heq] at h
  obtain ⟨rest, hrest, h⟩ := bind_eq_ok.mp h
  cases h
  rw [startValue, heq] at hv
  exact ⟨v, rest.1, rest.2, hv, rfl, rfl, hrest⟩

theorem keyResults_cons_ne {ep info : KeyPredicateInfo} {i : Nat} {t : DBDataType} {types : List DBDataType}
    {infos : List KeyPredicateInfo} {ss es : List ExecutionResult} (hop : info.op = .none ∨ isStartOp info.op = true)
    (hlen : types.length = infos.length)
    (hne : ∀ j, i + 1 ≤ j → j < i + 1 + infos.length → ep.keyIndex ≠ some j)
    (h : keyResults conv ep i false true (t :: types) (info :: infos.map clear) = .ok (ss, es)) :
    ∃ start last, startValue conv t info false = .ok start ∧ endValue conv t i ep true = .ok last ∧
      ss = start :: pad (info.op == .compGt) types ∧
        es = last :: pad (if ep.keyIndex = some i then ep.op == .compLe else true) types := by
  have hneq : info.op ≠ .compEq := by
    intro h
    rcases hop with hop | hop <;> simp [h, isStartOp] at hop
  have hmax : updateStartMax info.op false = (info.op == .compGt) := by
    rcases hop with hop | hop
    · rw [hop]; rfl
    · rcases (show info.op = .compGt ∨ info.op = .compGe by simpa [isStartOp] using hop) with h | h <;> rw [h] <;> rfl
  obtain ⟨start, hs, h⟩ := bind_eq_ok.mp h
  rw [if_neg hneq] at h
  obtain ⟨last, hl, h⟩ := bind_eq_ok.mp h
  dsimp only at h
  rw [keyResults_clear conv ep _ _ types infos (i + 1) hlen hne, ok_bind] at h
  cases h
  rw [hmax]
  exact ⟨start, last, hs, hl, rfl, rfl⟩

/-- The keys between the two ends of the range are those for which every comparison
the range stands for holds. -/
theorem between_iff {types : List DBDataType} {infos : List KeyPredicateInfo} (hlen : types.length = infos.length)
    (hform : ∀ info ∈ infos, StartForm info) (i : Nat) (s : Scan) (hv : s.keyValid = true)
    (hsi : s.startInclusive = true) (hei : s.endInclusive = true) (hf : EndForm s.endPredicate)
    {ss es : List ExecutionResult}
    (hr : keyResults conv (scanPredicates i infos s).2.endPredicate i false true types (scanPredicates i infos s).1 =
      .ok (ss, es)) {ks : List ExecutionResult} (hk : BoundedTypes types ks) :
    (AfterStart (scanPredicates i infos s).2.startInclusive (ranks ss) (ranks ks) ∧
        BeforeEnd (scanPredicates i infos s).2.endInclusive (ranks es) (ranks ks)) ↔
      ∀ p ∈ used i infos s.endPredicate, InfoHolds conv i types ks p := by
  induction infos generalizing types i s ss es ks with
  | nil =>
    cases types with
    | nil =>
      cases hk
      cases hr
      simp [scanPredicates, used, ranks, hsi, hei]
    | cons t types => cases hlen
  | cons info infos ih =>
    cases hk with
    | nil => cases hlen
    | @cons t k types ks hk hks =>
      have hlen' : types.length = infos.length := by simpa using hlen
      by_cases heq : info.op = .compEq
      · rw [scan_cons_eq hv hf heq] at hr ⊢
        obtain ⟨v, ss', es', hval, rfl, rfl, hrest⟩ := keyResults_cons_eq conv heq hr
        rw [used, if_pos heq, List.forall_mem_cons, infoHolds_head, columnHolds_iff conv hval, heq]
        simp only [ranks, List.map_cons]
        rw [between_cons]
        refine and_congr ?_ ?_
        · simp [FilterPlan.accepts, order_eq_eq]
        · let s' : Scan :=
            { s with
              endPredicate := afterEq i s.endPredicate
              solved := info.sExpr :: s.solved
              seekToFirst := false
              seekToLast := false }
          refine (ih hlen' (fun c hc => hform c (by simp [hc])) (i + 1) s' hv hsi hei (hf.afterEq i) hrest hks).trans ?_
          exact forall₂_congr fun p hp => (infoHolds_tail conv (le_of_mem_used hp)).symm
      · have hop : info.op = .none ∨ isStartOp info.op = true := by
          rcases hform info (by simp) with h | h | h
          · exact .inl h
          · exact absurd h heq
          · exact .inr h
        obtain ⟨ep, hscan, hep, hepn, hne⟩ := @scan_cons_ne _ infos _ _ hv hf hop
        rw [hscan] at hr ⊢
        obtain ⟨start, last, hst, hla, rfl, rfl⟩ := keyResults_cons_ne conv hop hlen' hne hr
        have hiff : ep.keyIndex = some i ↔ s.endPredicate.keyIndex = some i :=
          ⟨fun h => by_contra fun hn => hepn hn h, fun h => by rw [hep h]; exact h⟩
        have hlast : endValue conv t i s.endPredicate true = .ok last ∧
            (if ep.keyIndex = some i then ep.op == .compLe else true) =
              if s.endPredicate.keyIndex = some i then s.endPredicate.op == .compLe else true := by
          by_cases hi : s.endPredicate.keyIndex = some i
          · rw [hep hi] at hla
            exact ⟨hla, by rw [hep hi]⟩
          · have hi' := fun h => hi (hiff.mp h)
            rw [endValue, if_neg hi'] at hla
            rw [endValue, if_neg hi, if_neg hi', if_neg hi]
            exact ⟨hla, rfl⟩
        rw [hlast.2, hsi, hei, afterStart_iff conv hop hst hk hks, beforeEnd_iff conv hf hlast.1 hk hks, used,
          if_neg heq]
        by_cases hi : s.endPredicate.keyIndex = some i <;> cases ho : isStartOp info.op <;>
          simp [hi, infoHolds_head, and_comm]

end LevelPgServer.KeyRange
