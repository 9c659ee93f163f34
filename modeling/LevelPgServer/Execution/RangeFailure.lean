import LevelPgServer.Execution.RangeBuild

namespace LevelPgServer.RangeBuild

open ParseNode DBDataTypeHandler DataRow KeyOrder KeyRange KeySearchRange ExceptRules

variable {conv : Conversions} {t : TableInfo}

theorem keyResults_ok {types : List DBDataType} {infos : List KeyPredicateInfo} {ep : KeyPredicateInfo} {i : Nat}
    {nsm nem : Bool}
    (hs : ∀ (j : Nat) (type : DBDataType) (info : KeyPredicateInfo), types[j]? = some type → infos[j]? = some info →
      info.op ≠ .none → ∃ v, fromNode conv type info.value = .ok v)
    (he : ∀ (j : Nat) (type : DBDataType), types[j]? = some type → ep.keyIndex = some (i + j) →
      ∃ v, fromNode conv type ep.value = .ok v) : ∃ r, keyResults conv ep i nsm nem types infos = .ok r := by
  induction types generalizing infos i nsm nem with
  | nil => exact ⟨_, rfl⟩
  | cons type types ih =>
    cases infos with
    | nil => exact ⟨_, rfl⟩
    | cons info infos =>
      have hrec : ∀ nsm nem, ∃ r, keyResults conv ep (i + 1) nsm nem types infos = .ok r := fun nsm nem =>
        ih (fun j => hs (j + 1)) fun j type hj hk => he (j + 1) type hj (by rw [hk]; congr 1; omega)
      have hst : ∃ v, startValue conv type info nsm = .ok v := by
        unfold startValue
        split
        · next ho => exact hs 0 type info rfl rfl (by simp [ho])
        · next ho => exact hs 0 type info rfl rfl (by simp [ho])
        · next ho => exact hs 0 type info rfl rfl (by simp [ho])
        · exact ⟨_, rfl⟩
      have hl : ∃ v, endValue conv type i ep nem = .ok v := by
        unfold endValue
        split
        · next hi => exact he 0 type rfl hi
        · exact ⟨_, rfl⟩
      obtain ⟨start, hst⟩ := hst
      obtain ⟨last, hl⟩ := hl
      rw [keyResults, hst, ok_bind]
      split
      · obtain ⟨r, hr⟩ := hrec nsm nem
        exact ⟨_, by rw [hr]; rfl⟩
      · obtain ⟨r, hr⟩ := hrec (updateStartMax info.op nsm)
          (if ep.keyIndex = some i then ep.op == .compLe else nem)
        exact ⟨_, by rw [hl, ok_bind]; dsimp only; rw [hr]; rfl⟩

theorem write_setToMin (type : DBDataType) : ∃ bs, (getHandler type).write conv (getHandler type).setToMin = .ok bs := by
  cases hh : getHandler type with
  | int t => exact ⟨_, write_int ⟨le_rfl, by cases t <;> decide⟩⟩
  | float t => exact ⟨_, write_float (by rw [FloatType.checkValue, if_neg]; cases t <;> decide)⟩
  | string => exact ⟨_, rfl⟩

theorem write_setToMax (type : DBDataType) : ∃ bs, (getHandler type).write conv (getHandler type).setToMax = .ok bs := by
  cases hh : getHandler type with
  | int t => exact ⟨_, write_int ⟨by cases t <;> decide, le_rfl⟩⟩
  | float t => exact ⟨_, write_float (by rw [FloatType.checkValue, if_neg]; cases t <;> decide)⟩
  | string => exact ⟨_, rfl⟩

theorem copyRow_ok {types : List DBDataType} {vs : List ExecutionResult} (ht : HasTypes types vs)
    (hw : List.Forall₂ (fun t v => ∃ bs, (getHandler t).write conv v = .ok bs) types vs) :
    ∃ row, copyRow conv types vs = .ok row := by
  have hc : ∃ cs, columnBytes conv types vs = .ok cs := by
    clear ht
    induction hw with
    | nil => exact ⟨[], rfl⟩
    | cons h _ ih =>
      obtain ⟨bs, hbs⟩ := h
      obtain ⟨cs, hcs⟩ := ih
      exact ⟨bs :: cs, by simp [columnBytes, hbs, hcs]⟩
  obtain ⟨cs, hc⟩ := hc
  exact ⟨cs.flatten, (copyRow_eq_ok conv ht).mpr ⟨cs, hc, rfl⟩⟩

theorem getSize_ok {h : DBDataTypeHandler} {v : ExecutionResult} (ht : hasType h v = true) :
    ∃ n, h.getSize conv v = .ok n := by
  cases h with
  | int t => exact ⟨_, rfl⟩
  | float t => exact ⟨_, rfl⟩
  | string => cases v <;> first | exact ⟨_, rfl⟩ | simp [hasType] at ht

/-- Storing a row of typed values fails only as storing one of them does. -/
theorem copyRow_error {types : List DBDataType} {vs : List ExecutionResult} (ht : HasTypes types vs) {f g : Fault}
    (hw : List.Forall₂ (fun t v => ∀ e, (getHandler t).write conv v = .error e → e = g) types vs)
    (h : copyRow conv types vs = .error f) : f = g := by
  have hsize : ∃ n, computeSize conv types vs = .ok n := by
    clear h hw
    induction ht with
    | nil => exact ⟨0, rfl⟩
    | cons hv _ ih =>
      obtain ⟨n, hn⟩ := @getSize_ok conv _ _ hv
      obtain ⟨m, hm⟩ := ih
      exact ⟨n + m, by simp [computeSize, hn, hm]⟩
  have hcopy : ∀ (buf : Bytes) (off : Nat), copyFrom conv types vs buf off = .error f → f = g := by
    clear h hsize
    induction hw with
    | nil => intro buf off h; cases h
    | @cons t v types vs hv _ ih =>
      intro buf off h
      obtain ⟨htv, hts⟩ := List.forall₂_cons.mp ht
      rcases bind_eq_error.mp h with h | ⟨bs, -, h⟩
      · exact hv f h
      · obtain ⟨n, hn⟩ := @getSize_ok conv _ _ htv
        rw [hn, ok_bind] at h
        exact ih hts _ _ h
  obtain ⟨n, hn⟩ := hsize
  rw [copyRow, hn, ok_bind] at h
  rcases bind_eq_error.mp h with h | ⟨r, -, h⟩
  · exact hcopy _ _ h
  · cases h

/-- The column compared is a key column, and the constant a string that no row can hold. -/
def LongKey (conv : Conversions) (t : TableInfo) (cmp : Comparison) : Prop :=
  ∃ c value s, cmp.Against t c value ∧ c.keyIndex ≠ none ∧ fromNode conv c.type value = .ok (.string s) ∧
    maxLength ≤ s.length

/-- The range of a conjunction can be built when its constants can be read, unless one
is too long a string; then that is what is reported. -/
theorem build_ok_or (hv : t.Valid) {cs : List Comparison} (hexact : ExactFloats conv t cs) {p : ParseNode}
    {s : Predicates} (hp : doSetPredicate t p { predicates := List.replicate t.keyTypes.length {} } = .ok s)
    (hd : Conjunction.Derived t cs s) (hconv : ∀ cmp ∈ cs, cmp.Converts conv t) :
    (∃ r, build conv t.keyTypes t p = .ok r) ∨
      (build conv t.keyTypes t p = .error tooLargeString ∧ ∃ cmp ∈ cs, LongKey conv t cmp) := by
  have hbound : ∀ cmp ∈ cs, ∀ k info, cmp.Bound t k info → ∀ type, t.keyTypes[k]? = some type →
      ∃ v, fromNode conv type info.value = .ok v := by
    intro cmp hc k info hb type hty
    obtain ⟨c, ha, -, htc⟩ := bound_keyType hv hb
    obtain rfl : type = c.type := Option.some.inj (hty.symm.trans htc)
    exact hconv cmp hc c _ ha
  let scan := scanPredicates 0 s.predicates { endPredicate := s.endPredicate }
  have hends : ∃ r, keyResults conv scan.2.endPredicate 0 false true t.keyTypes scan.1 = .ok r := by
    refine keyResults_ok (fun j type info hty hi hop => ?_) (fun j type hty hk => ?_)
    · rcases scan_fst hi with hi | hi
      · rcases hd.starts j info hi with hn | ⟨-, cmp, hc, hb⟩
        · exact absurd hn hop
        · exact hbound cmp hc j info hb type hty
      · exact absurd hi hop
    · rw [Nat.zero_add] at hk
      rcases scan_endPredicate s.predicates 0 { endPredicate := s.endPredicate } with hs | hs
      · rw [show scan.2.endPredicate = s.endPredicate from hs] at hk ⊢
        rcases hd.last with hl | ⟨-, k, cmp, hc, hb⟩
        · rw [hl] at hk
          cases hk
        · obtain rfl : k = j := Option.some.inj (hb.keyIndex_eq.symm.trans hk)
          exact hbound cmp hc k _ hb type hty
      · rw [show scan.2.endPredicate.keyIndex = none from hs] at hk
        cases hk
  obtain ⟨⟨ss, es⟩, hr⟩ := hends
  have hordered := ends_all (P := fun type v => isOrdered (getHandler type) v = true)
    (fun _ => isOrdered_setToMin _) (fun _ => isOrdered_setToMax _) hv hd
    (fun cmp hc c value ha hk v hval => by
      obtain ⟨k, hk⟩ := Option.ne_none_iff_exists'.mp hk
      exact hexact.ordered hc ha hk hval) hr
  have hss := OrderedTypes.hasTypes hordered.1
  have hes := OrderedTypes.hasTypes hordered.2
  rw [build, hp, ok_bind]
  change (∃ r, (keyResults conv scan.2.endPredicate 0 false true t.keyTypes scan.1 >>= _) = Except.ok r) ∨
    (keyResults conv scan.2.endPredicate 0 false true t.keyTypes scan.1 >>= _) = Except.error tooLargeString ∧ _
  rw [hr, ok_bind]
  by_cases hlong : ∃ cmp ∈ cs, LongKey conv t cmp
  · have hfail := ends_all (P := fun type v => ∀ e, (getHandler type).write conv v = .error e → e = tooLargeString)
      (fun type e he => by obtain ⟨bs, hbs⟩ := @write_setToMin conv type; rw [hbs] at he; cases he)
      (fun type e he => by obtain ⟨bs, hbs⟩ := @write_setToMax conv type; rw [hbs] at he; cases he) hv hd
      (fun cmp hc c value ha hk v hval e he => by
        rcases fromNode_write hval with ⟨bs, hbs⟩ | ⟨hbs, -⟩
        · rw [hbs] at he; cases he
        · rw [hbs] at he; cases he; rfl) hr
    cases hstart : copyRow conv t.keyTypes ss with
    | error f =>
      obtain rfl := copyRow_error hss hfail.1 hstart
      exact .inr ⟨rfl, hlong⟩
    | ok startRow =>
      cases hend : copyRow conv t.keyTypes es with
      | error f =>
        obtain rfl := copyRow_error hes hfail.2 hend
        exact .inr ⟨rfl, hlong⟩
      | ok endRow => exact .inl ⟨_, rfl⟩
  · have hwrites := ends_all (P := fun type v => ∃ bs, (getHandler type).write conv v = .ok bs)
      write_setToMin write_setToMax hv hd
      (fun cmp hc c value ha hk v hval => by
        rcases fromNode_write hval with hbs | ⟨-, s, rfl, hl⟩
        · exact hbs
        · exact absurd ⟨cmp, hc, c, value, s, ha, hk, hval, hl⟩ hlong) hr
    obtain ⟨startRow, hstart⟩ := copyRow_ok hss hwrites.1
    obtain ⟨endRow, hend⟩ := copyRow_ok hes hwrites.2
    exact .inl ⟨_, by rw [hstart, ok_bind, hend]; rfl⟩

end LevelPgServer.RangeBuild
