import LevelPgServer.Execution.Conjunction

namespace LevelPgServer

open ParseNode DBDataTypeHandler DataRow KeyOrder KeyRange KeySearchRange ExceptRules ThreeWay LexRange

namespace KeyOrder

theorem isOrdered_setToMin (h : DBDataTypeHandler) : isOrdered h h.setToMin = true := by
  cases h with
  | int t => rfl
  | float t => cases t <;> decide
  | string => rfl

theorem isOrdered_setToMax (h : DBDataTypeHandler) : isOrdered h h.setToMax = true := by
  cases h with
  | int t => rfl
  | float t => cases t <;> decide
  | string => rfl

end KeyOrder

namespace RangeBuild

variable {conv : Conversions} {t : TableInfo}

theorem scan_fst {infos : List KeyPredicateInfo} {i : Nat} {s : Scan} {j : Nat} {info : KeyPredicateInfo}
    (h : (scanPredicates i infos s).1[j]? = some info) : infos[j]? = some info ∨ info.op = .none := by
  induction infos generalizing i s j with
  | nil => simp [scanPredicates] at h
  | cons a infos ih =>
    cases j with
    | zero =>
      simp only [scanPredicates, Scan.step, List.getElem?_cons_zero, Option.some.injEq] at h ⊢
      split at h
      · exact .inl h
      · exact .inr (by rw [← h])
    | succ j =>
      simp only [scanPredicates, List.getElem?_cons_succ] at h ⊢
      exact ih h

theorem length_scan (infos : List KeyPredicateInfo) (i : Nat) (s : Scan) :
    (scanPredicates i infos s).1.length = infos.length := by
  induction infos generalizing i s with
  | nil => rfl
  | cons a infos ih => simp [scanPredicates, ih]

@[simp] theorem startStep_endPredicate (info : KeyPredicateInfo) (s : Scan) :
    (s.startStep info).endPredicate = s.endPredicate := by
  unfold Scan.startStep
  split <;> rfl

theorem endStep_endPredicate (i : Nat) (info : KeyPredicateInfo) (s : Scan) :
    (s.endStep i info).endPredicate = s.endPredicate ∨ (s.endStep i info).endPredicate.keyIndex = none := by
  unfold Scan.endStep
  repeat' split
  all_goals first | exact .inl rfl | exact .inr rfl

theorem scan_endPredicate (infos : List KeyPredicateInfo) (i : Nat) (s : Scan) :
    (scanPredicates i infos s).2.endPredicate = s.endPredicate ∨
      (scanPredicates i infos s).2.endPredicate.keyIndex = none := by
  induction infos generalizing i s with
  | nil => exact .inl rfl
  | cons a infos ih =>
    have hstep : (s.step i a).2.endPredicate = s.endPredicate ∨ (s.step i a).2.endPredicate.keyIndex = none := by
      rw [Scan.step, startStep_endPredicate]
      exact endStep_endPredicate i _ s
    rcases ih (i + 1) (s.step i a).2 with h | h
    · exact hstep.imp h.trans fun hn => by rw [scanPredicates, h]; exact hn
    · exact .inr h

theorem scan_seek (infos : List KeyPredicateInfo) (i : Nat) (s : Scan) :
    ((scanPredicates i infos s).2.seekToFirst = true → s.seekToFirst = true) ∧
      ((scanPredicates i infos s).2.seekToLast = true → s.seekToLast = true) := by
  induction infos generalizing i s with
  | nil => exact ⟨id, id⟩
  | cons a infos ih =>
    rw [scanPredicates]
    have hend : ∀ info : KeyPredicateInfo, ((s.endStep i info).seekToFirst = true → s.seekToFirst = true) ∧
        ((s.endStep i info).seekToLast = true → s.seekToLast = true) := by
      intro info
      unfold Scan.endStep
      repeat' split
      all_goals simp
    have hstart : ∀ (info : KeyPredicateInfo) (u : Scan), ((u.startStep info).seekToFirst = true → u.seekToFirst = true) ∧
        ((u.startStep info).seekToLast = true → u.seekToLast = true) := by
      intro info u
      unfold Scan.startStep
      split <;> simp
    obtain ⟨h1, h2⟩ := ih (i + 1) (s.step i a).2
    exact ⟨fun h => (hend _).1 ((hstart _ _).1 (h1 h)), fun h => (hend _).2 ((hstart _ _).2 (h2 h))⟩

section Values

variable {P : DBDataType → ExecutionResult → Prop} (hmin : ∀ type, P type (getHandler type).setToMin)
  (hmax : ∀ type, P type (getHandler type).setToMax)

include hmin hmax

theorem startValue_all {type : DBDataType} {info : KeyPredicateInfo} {nsm : Bool} {v : ExecutionResult}
    (hc : info.op ≠ .none → ∀ v, fromNode conv type info.value = .ok v → P type v)
    (h : startValue conv type info nsm = .ok v) : P type v := by
  unfold startValue at h
  split at h
  · next ho => exact hc (by simp [ho]) v h
  · next ho => exact hc (by simp [ho]) v h
  · next ho => exact hc (by simp [ho]) v h
  · cases h
    split
    · exact hmax _
    · exact hmin _

theorem endValue_all {type : DBDataType} {i : Nat} {ep : KeyPredicateInfo} {nem : Bool} {v : ExecutionResult}
    (hc : ep.keyIndex = some i → ∀ v, fromNode conv type ep.value = .ok v → P type v)
    (h : endValue conv type i ep nem = .ok v) : P type v := by
  unfold endValue at h
  split at h
  · next hi => exact hc hi v h
  · cases h
    split
    · exact hmax _
    · exact hmin _

/-- The ends of a range hold constants of the predicate and ends of the column types. -/
theorem keyResults_all {types : List DBDataType} {infos : List KeyPredicateInfo} {ep : KeyPredicateInfo}
    (hlen : types.length = infos.length) {i : Nat} {nsm nem : Bool} {ss es : List ExecutionResult}
    (hs : ∀ (j : Nat) (type : DBDataType) (info : KeyPredicateInfo), types[j]? = some type → infos[j]? = some info →
      info.op ≠ .none → ∀ v, fromNode conv type info.value = .ok v → P type v)
    (he : ∀ (j : Nat) (type : DBDataType), types[j]? = some type → ep.keyIndex = some (i + j) →
      ∀ v, fromNode conv type ep.value = .ok v → P type v)
    (h : keyResults conv ep i nsm nem types infos = .ok (ss, es)) :
    List.Forall₂ P types ss ∧ List.Forall₂ P types es := by
  induction types generalizing infos i nsm nem ss es with
  | nil =>
    cases h
    exact ⟨.nil, .nil⟩
  | cons type types ih =>
    cases infos with
    | nil => cases hlen
    | cons info infos =>
      have hlen' : types.length = infos.length := by simpa using hlen
      have hs' : ∀ (j : Nat) (type : DBDataType) (info : KeyPredicateInfo), types[j]? = some type →
          infos[j]? = some info → info.op ≠ .none → ∀ v, fromNode conv type info.value = .ok v → P type v :=
        fun j => hs (j + 1)
      have he' : ∀ (j : Nat) (type : DBDataType), types[j]? = some type → ep.keyIndex = some (i + 1 + j) →
          ∀ v, fromNode conv type ep.value = .ok v → P type v :=
        fun j type hj hk => he (j + 1) type hj (by rw [hk]; congr 1; omega)
      obtain ⟨start, hst, h⟩ := bind_eq_ok.mp h
      have hstart := startValue_all hmin hmax (hs 0 type info rfl rfl) hst
      split at h
      · obtain ⟨rest, hrest, h⟩ := bind_eq_ok.mp h
        cases h
        obtain ⟨h1, h2⟩ := ih hlen' hs' he' hrest
        exact ⟨.cons hstart h1, .cons hstart h2⟩
      · obtain ⟨last, hl, h⟩ := bind_eq_ok.mp h
        obtain ⟨rest, hrest, h⟩ := bind_eq_ok.mp h
        cases h
        obtain ⟨h1, h2⟩ := ih hlen' hs' he' hrest
        exact ⟨.cons hstart h1, .cons (endValue_all hmin hmax (he 0 type rfl) hl) h2⟩

end Values

/-- A range that starts at the first key starts before every key, and one that ends at
the last key ends behind every key. -/
theorem seek_bounds {types : List DBDataType} {infos : List KeyPredicateInfo} (hlen : types.length = infos.length)
    (hform : ∀ info ∈ infos, StartForm info) {s : Scan} (hv : s.keyValid = true) (hsi : s.startInclusive = true)
    (hei : s.endInclusive = true) (hf : EndForm s.endPredicate) {ss es : List ExecutionResult}
    (hr : keyResults conv (scanPredicates 0 infos s).2.endPredicate 0 false true types (scanPredicates 0 infos s).1 =
      .ok (ss, es)) {ks : List ExecutionResult} (hk : BoundedTypes types ks) :
    ((scanPredicates 0 infos s).2.seekToFirst = true →
        AfterStart (scanPredicates 0 infos s).2.startInclusive (ranks ss) (ranks ks)) ∧
      ((scanPredicates 0 infos s).2.seekToLast = true →
        BeforeEnd (scanPredicates 0 infos s).2.endInclusive (ranks es) (ranks ks)) := by
  cases infos with
  | nil =>
    cases hk with
    | nil =>
      cases hr
      simp [scanPredicates, ranks, hsi, hei]
    | cons => cases hlen
  | cons info infos =>
    cases hk with
    | nil => cases hlen
    | @cons type k types ks hk hks =>
      have hlen' : types.length = infos.length := by simpa using hlen
      rcases hform info (by simp) with ho | ho | ho
      on_goal 2 =>
        rw [scan_cons_eq hv hf ho]
        refine ⟨fun h => ?_, fun h => ?_⟩
        · exact absurd ((scan_seek infos 1 _).1 h) (by simp)
        · exact absurd ((scan_seek infos 1 _).2 h) (by simp)
      all_goals
        have hop : info.op = .none ∨ isStartOp info.op = true := by simp [ho]
        obtain ⟨ep, hscan, hep, hepn, hne⟩ := @scan_cons_ne _ infos _ _ hv hf hop
        rw [hscan] at hr ⊢
        obtain ⟨start, last, hst, hla, rfl, rfl⟩ := keyResults_cons_ne conv hop hlen' hne hr
        refine ⟨fun h => ?_, fun h => ?_⟩
        · have hns : isStartOp info.op = false := by simpa using (Bool.and_eq_true_iff.mp h).2
          have := (afterStart_iff conv hop hst hk hks).mpr (fun h => by rw [hns] at h; cases h)
          simpa [hns, hsi] using this
        · have hn : s.endPredicate.keyIndex ≠ some 0 := by simpa using (Bool.and_eq_true_iff.mp h).2
          have hn' := hepn hn
          rw [endValue, if_neg hn'] at hla
          have := (@beforeEnd_iff conv _ _ 0 s.endPredicate last _ _ hf
            (by rw [endValue, if_neg hn]; exact hla) hk hks).mpr (fun h => absurd h hn)
          simpa [hn, hn', hei] using this

/-- The constants of the comparisons that the range stands for have been read. -/
theorem used_converts {types : List DBDataType} {infos : List KeyPredicateInfo} (hlen : types.length = infos.length)
    (hform : ∀ info ∈ infos, StartForm info) (i : Nat) {s : Scan} (hv : s.keyValid = true)
    (hf : EndForm s.endPredicate) {ss es : List ExecutionResult}
    (hr : keyResults conv (scanPredicates i infos s).2.endPredicate i false true types (scanPredicates i infos s).1 =
      .ok (ss, es)) :
    ∀ q ∈ used i infos s.endPredicate, ∃ type v, types[q.1 - i]? = some type ∧
      fromNode conv type q.2.value = .ok v := by
  induction infos generalizing types i s ss es with
  | nil => simp [used]
  | cons info infos ih =>
    cases types with
    | nil => cases hlen
    | cons type types =>
      have hlen' : types.length = infos.length := by simpa using hlen
      by_cases heq : info.op = .compEq
      · rw [scan_cons_eq hv hf heq] at hr
        obtain ⟨v, ss', es', hval, -, -, hrest⟩ := keyResults_cons_eq conv heq hr
        rw [used, if_pos heq, List.forall_mem_cons]
        refine ⟨⟨type, v, by simp, hval⟩, fun q hq => ?_⟩
        have hle := le_of_mem_used hq
        obtain ⟨ty, w, hty, hw⟩ := ih hlen' (fun c hc => hform c (by simp [hc])) (i + 1)
          (s := { s with
            endPredicate := afterEq i s.endPredicate
            solved := info.sExpr :: s.solved
            seekToFirst := false
            seekToLast := false }) hv (hf.afterEq i) hrest q hq
        obtain ⟨j, hj⟩ : ∃ j, q.1 - i = j + 1 := ⟨q.1 - i - 1, by omega⟩
        rw [show q.1 - (i + 1) = j by omega] at hty
        exact ⟨ty, w, by simpa [hj] using hty, hw⟩
      · have hop : info.op = .none ∨ isStartOp info.op = true := by
          rcases hform info (by simp) with h | h | h
          · exact .inl h
          · exact absurd h heq
          · exact .inr h
        obtain ⟨ep, hscan, hep, hepn, hne⟩ := @scan_cons_ne _ infos _ _ hv hf hop
        rw [hscan] at hr
        obtain ⟨start, last, hst, hla, -, -⟩ := keyResults_cons_ne conv hop hlen' hne hr
        intro q hq
        rw [used, if_neg heq, List.mem_append] at hq
        rcases hq with hq | hq
        · split at hq <;> simp at hq
          next hi =>
          rw [endValue, hep hi, if_pos hi] at hla
          exact ⟨type, last, by simp [hq], by rw [hq]; exact hla⟩
        · split at hq <;> simp at hq
          next ho =>
          have hval : startValue conv type info false = fromNode conv type info.value := by
            rcases (show info.op = .compGt ∨ info.op = .compGe by simpa [isStartOp] using ho) with h | h <;>
              simp [startValue, h]
          exact ⟨type, start, by simp [hq], by rw [hq, ← hval]; exact hst⟩

theorem names_keyType {p : ParseNode} {c : DBColumnInfo} (hv : t.Valid) (hn : t.Names p c) {k : Nat}
    (hk : c.keyIndex = some k) : t.keyTypes[k]? = some c.type := by
  obtain ⟨i, hi⟩ := TableInfo.getColumnByName_mem hn.column
  rw [hv.getElem?_keyTypes, hv.getKeyColumn hi hk]
  rfl

theorem bound_keyType {cmp : Comparison} {k : Nat} {info : KeyPredicateInfo} (hv : t.Valid)
    (h : cmp.Bound t k info) : ∃ c, cmp.Against t c info.value ∧ c.keyIndex = some k ∧
      t.keyTypes[k]? = some c.type := by
  cases h with
  | left hn hc hk hr => exact ⟨_, .left hn hc, hk, names_keyType hv hn hk⟩
  | right hn hc hk hr => exact ⟨_, .right hn hc, hk, names_keyType hv hn hk⟩

/-- A range that was built contains the keys for which the comparisons it stands for
hold, and their texts are the solved ones. -/
structure Stands (conv : Conversions) (t : TableInfo) (cs : List Comparison) (range : KeySearchRange)
    (solved : List Bytes) (s : Predicates) : Prop where
  built : range.Built conv t
  derived : Conjunction.Derived t cs s
  contains : ∀ ks, BoundedTypes t.keyTypes ks →
    (range.Contains ks ↔ ∀ q ∈ used 0 s.predicates s.endPredicate, InfoHolds conv 0 t.keyTypes ks q)
  converts : ∀ q ∈ used 0 s.predicates s.endPredicate, ∃ type v, t.keyTypes[q.1]? = some type ∧
    fromNode conv type q.2.value = .ok v
  solved_iff : ∀ x, x ∈ solved ↔ ∃ q ∈ used 0 s.predicates s.endPredicate, q.2.sExpr = x

/-- Every value at the ends of the range of a conjunction is an end of its column type or
a constant that the column is compared with. -/
theorem ends_all {P : DBDataType → ExecutionResult → Prop} (hmin : ∀ type, P type (getHandler type).setToMin)
    (hmax : ∀ type, P type (getHandler type).setToMax) (hv : t.Valid) {cs : List Comparison} {s : Predicates}
    (hd : Conjunction.Derived t cs s)
    (hconst : ∀ cmp ∈ cs, ∀ c value, cmp.Against t c value → c.keyIndex ≠ none →
      ∀ v, fromNode conv c.type value = .ok v → P c.type v) {ss es : List ExecutionResult}
    (hr : keyResults conv (scanPredicates 0 s.predicates { endPredicate := s.endPredicate }).2.endPredicate 0 false true
      t.keyTypes (scanPredicates 0 s.predicates { endPredicate := s.endPredicate }).1 = .ok (ss, es)) :
    List.Forall₂ P t.keyTypes ss ∧ List.Forall₂ P t.keyTypes es := by
  refine keyResults_all hmin hmax (hd.length.symm.trans (length_scan _ _ _).symm) (fun j type info hty hi hop v hval => ?_)
    (fun j type hty hk v hval => ?_) hr
  · rcases scan_fst hi with hi | hi
    · rcases hd.starts j info hi with hn | ⟨-, cmp, hc, hb⟩
      · exact absurd hn hop
      · obtain ⟨c, ha, hck, hct⟩ := bound_keyType hv hb
        obtain rfl : type = c.type := Option.some.inj (hty.symm.trans hct)
        exact hconst cmp hc c info.value ha (by simp [hck]) v hval
    · exact absurd hi hop
  · rcases scan_endPredicate s.predicates 0 { endPredicate := s.endPredicate } with hs | hs
    · rw [hs] at hk hval
      rcases hd.last with hl | ⟨-, k, cmp, hc, hb⟩
      · rw [hl] at hk
        cases hk
      · obtain rfl : k = j := Option.some.inj ((hb.keyIndex_eq.symm.trans hk).trans (by rw [Nat.zero_add]))
        obtain ⟨c, ha, hck, hct⟩ := bound_keyType hv hb
        obtain rfl : type = c.type := Option.some.inj (hty.symm.trans hct)
        exact hconst cmp hc c _ ha (by simp [hck]) v hval
    · rw [hs] at hk
      cases hk

theorem build_stands (hv : t.Valid) {cs : List Comparison} (hexact : ExactFloats conv t cs) {p : ParseNode}
    {s : Predicates} (hp : doSetPredicate t p { predicates := List.replicate t.keyTypes.length {} } = .ok s)
    (hd : Conjunction.Derived t cs s) {range : KeySearchRange} {solved : List Bytes}
    (h : build conv t.keyTypes t p = .ok (range, solved)) : Stands conv t cs range solved s := by
  rw [build, hp, ok_bind] at h
  obtain ⟨⟨ss, es⟩, hr, h⟩ := bind_eq_ok.mp h
  obtain ⟨startRow, hstart, h⟩ := bind_eq_ok.mp h
  obtain ⟨endRow, -, h⟩ := bind_eq_ok.mp h
  cases h
  have hlen : t.keyTypes.length = s.predicates.length := hd.length.symm
  let s0 : Scan := { endPredicate := s.endPredicate }
  obtain ⟨hso, heo⟩ := ends_all (P := fun type v => isOrdered (getHandler type) v = true)
    (fun _ => isOrdered_setToMin _) (fun _ => isOrdered_setToMax _) hv hd
    (fun cmp hc c value ha hk v hval => by
      obtain ⟨k, hk⟩ := Option.ne_none_iff_exists'.mp hk
      exact hexact.ordered hc ha hk hval) hr
  exact
    { built :=
        { keyTypes := rfl
          startOrdered := hso
          endOrdered := heo
          startRow := (copyRow_eq_ok conv (OrderedTypes.hasTypes hso)).mp hstart
          toFirst := fun h ks hk => (seek_bounds hlen hd.startForm rfl rfl rfl hd.endForm hr hk).1 h
          toLast := fun h ks hk => (seek_bounds hlen hd.startForm rfl rfl rfl hd.endForm hr hk).2 h }
      derived := hd
      contains := fun ks hk => between_iff conv hlen hd.startForm 0 s0 rfl rfl rfl hd.endForm hr hk
      converts := used_converts hlen hd.startForm 0 rfl hd.endForm hr
      solved_iff := fun x => (mem_solved hd.startForm 0 s0 rfl hd.endForm x).trans (or_iff_right (List.not_mem_nil)) }

end RangeBuild

end LevelPgServer
