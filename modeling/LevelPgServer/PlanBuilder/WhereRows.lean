import LevelPgServer.PlanBuilder.WhereClause

namespace LevelPgServer.LevelDBPlanBuilder

open ParseNode KeySearchRange KeyOrder ExceptRules RangeBuild RowMeaning Predicate

variable {conv : Conversions} {t : TableInfo}

section Conjunctions

variable {p : ParseNode} {cs : List Comparison} {e : Entry}

/-- Where the filter decides a conjunction, from left to right up to the first comparison that
fails, it decides it as the predicate means it. -/
theorem satisfies_of_testAll (h : IsConjunction t p cs) {b : Bool} (ht : FilterPlan.testAll conv t e cs = .ok b) :
    Satisfies conv t p e = b := by
  have hsplit : ∀ (as bs : List Comparison) (b : Bool), FilterPlan.testAll conv t e (as ++ bs) = .ok b →
      ∃ a, FilterPlan.testAll conv t e as = .ok a ∧
        (if a then FilterPlan.testAll conv t e bs = .ok b else b = false) := by
    intro as bs b h
    induction as with
    | nil => exact ⟨true, rfl, h⟩
    | cons cmp as ih =>
      rw [List.cons_append, FilterPlan.testAll] at h
      obtain ⟨c, hc, h⟩ := bind_eq_ok.mp h
      rw [FilterPlan.testAll, hc, ok_bind]
      cases c with
      | true => exact ih h
      | false =>
        cases h
        exact ⟨false, rfl, rfl⟩
  induction h generalizing b with
  | @comparison sv c value cmp hop _ =>
    rw [FilterPlan.testAll] at ht
    obtain ⟨a, ha, ht⟩ := bind_eq_ok.mp ht
    rw [Satisfies, holds_of_test hop ha]
    cases a with
    | true => exact Except.ok.inj ht
    | false => exact Except.ok.inj ht
  | and _ _ ihp ihq =>
    obtain ⟨a, ha, hb⟩ := hsplit _ _ b ht
    rw [Satisfies] at ihp ihq ⊢
    rw [holds_and, ihp ha]
    cases a with
    | true => exact (Bool.true_and _).trans (ihq hb)
    | false => exact hb.symm

theorem satisfies_comparison (h : IsConjunction t p cs) (hp : Satisfies conv t p e = true) {cmp : Comparison}
    (hc : cmp ∈ cs) : compareOperands (t.valuation conv e) cmp.op cmp.left cmp.right = true := by
  induction h with
  | @comparison sv c value cmp' hop _ =>
    obtain rfl := List.mem_singleton.mp hc
    rwa [Satisfies, holds_comparison _ _ _ hop] at hp
  | and _ _ ihp ihq =>
    rw [Satisfies, holds_and, Bool.and_eq_true] at hp
    obtain hc | hc := List.mem_append.mp hc
    · exact ihp hp.1 hc
    · exact ihq hp.2 hc

theorem solved_test {range : KeySearchRange} {solved : List Bytes} {s : Predicates} (hst : Stands conv t cs range solved s)
    (hv : t.Valid) (htext : TextsDetermine cs) (hexact : ExactFloats conv t cs) {db : LevelDB} (hs : Store conv t db)
    (he : e ∈ db) {cmp : Comparison} (hc : cmp ∈ cs) (hx : cmp.sExpr ∈ solved) : ∃ b, cmp.test conv t e = .ok b := by
  obtain ⟨q, hq, hb⟩ := hst.used_of_solved htext hc hx
  obtain ⟨type, v, hty, hval⟩ := hst.converts q hq
  obtain ⟨c, ha, hck, htc⟩ := bound_keyType hv hb
  obtain rfl : type = c.type := Option.some.inj (hty.symm.trans htc)
  obtain ⟨b, htest, -⟩ := hb.test_eq hv hs he hty hval (hexact.ordered hc ha hck hval)
  exact ⟨b, htest⟩

end Conjunctions

/-- Where a filter has decided every entry that it was given, it has kept those that satisfy it. -/
theorem selectRows_of_fault {css : List (List Comparison)} {g : Entry → Bool} {es : List Entry}
    (hf : (FilterPlan.selectRows conv t css es).fault = none)
    (h : ∀ e ∈ es, ∀ b, FilterPlan.testAny conv t e css = .ok b → g e = b) :
    FilterPlan.selectRows conv t css es = ⟨es.filter g, none⟩ := by
  refine selectRows_eq fun e he => ?_
  induction es with
  | nil => cases he
  | cons a es ih =>
    rw [FilterPlan.selectRows] at hf
    have hrest : ∀ b, FilterPlan.testAny conv t a css = .ok b → (FilterPlan.selectRows conv t css es).fault = none := by
      intro b hb
      rw [hb] at hf
      cases b <;> exact hf
    cases ht : FilterPlan.testAny conv t a css with
    | error f =>
      rw [ht] at hf
      cases hf
    | ok b =>
      obtain rfl | he := List.mem_cons.mp he
      · rw [ht, h _ List.mem_cons_self b ht]
      · exact ih (hrest b ht) (fun x hx => h x (List.mem_cons_of_mem a hx)) he

theorem conjunction_run {p : ParseNode} {cs : List Comparison} (h : IsConjunction t p cs) (htext : TextsDetermine cs)
    (hexact : ExactFloats conv t cs) (hv : t.Valid) {info : ScanPlanInfo} (hi : ScanPlanInfo.PlanOf conv t cs info)
    {db : LevelDB} (hs : Store conv t db) (hf : (info.run conv db).fault = none) :
    info.run conv db = ⟨db.filter (Satisfies conv t p), none⟩ ∧
      ∀ range, info.scan.searchRange = some range → ∀ e ∈ db, Satisfies conv t p e = true →
        range.Contains (t.keyOf e) := by
  obtain ⟨range, s, hr, hst⟩ := hi.range
  have hin : ∀ e ∈ db, Satisfies conv t p e = true → range.Contains (t.keyOf e) := by
    intro e he hp
    refine (hst.contains_iff hv htext hexact hs he).mpr fun cmp hc hx => ?_
    obtain ⟨b, hb⟩ := solved_test hst hv htext hexact hs he hc hx
    obtain ⟨hop, -⟩ := Conjunction.isConjunction_test h cmp hc
    have hmeans := holds_of_test hop hb []
    rw [holds_comparison _ _ _ hop, satisfies_comparison h hp hc] at hmeans
    rw [hb, ← hmeans]
  rw [hi.run_eq hv hr hs] at hf ⊢
  refine ⟨?_, fun range' hr' => by rw [hr] at hr'; cases hr'; exact hin⟩
  have hdecides := @selectRows_of_fault conv t _ (Satisfies conv t p) _ hf (by
    intro e he b hb
    obtain ⟨he, hc⟩ := List.mem_filter.mp he
    have hsolved := (hst.contains_iff hv htext hexact hs he).mp (of_decide_eq_true hc)
    rw [FilterPlan.testAny_singleton, FilterPlan.testAll_kept hsolved] at hb
    exact satisfies_of_testAll h hb)
  rw [hdecides, List.filter_filter]
  congr 1
  refine List.filter_congr fun e he => ?_
  by_cases hp : Satisfies conv t p e = true
  · rw [hp, Bool.true_and]
    exact decide_eq_true (hin e he hp)
  · rw [Bool.not_eq_true] at hp
    rw [hp, Bool.false_and]

section Disjunctions

variable {ds : List ParseNode} {css : List (List Comparison)} {scans : List ScanPlanInfo} {db : LevelDB}

theorem testAny_satisfies (h : List.Forall₂ (IsConjunction t) ds css) {e : Entry} {b : Bool}
    (ht : FilterPlan.testAny conv t e css = .ok b) : ds.any (fun d => Satisfies conv t d e) = b := by
  induction h with
  | nil => exact Except.ok.inj ht
  | cons hd _ ih =>
    rw [FilterPlan.testAny] at ht
    obtain ⟨a, ha, ht⟩ := bind_eq_ok.mp ht
    rw [List.any_cons, satisfies_of_testAll hd ha]
    cases a with
    | true => exact Except.ok.inj ht
    | false => exact (Bool.false_or _).trans (ih ht)

theorem disjunction_fullScan (h : List.Forall₂ (IsConjunction t) ds css) (hv : t.Valid) {sx sv : Bytes} {plan : SelectPlan}
    (hp : fullScan conv t (.node .op .or sx sv ds) = .ok plan) (hs : Store conv t db)
    (hf : (plan.run conv db).fault = none) :
    plan.run conv db = ⟨db.filter (fun e => ds.any (fun d => Satisfies conv t d e)), none⟩ := by
  obtain ⟨info, hi, hp⟩ := bind_eq_ok.mp hp
  cases hp
  obtain ⟨r, hr, hi⟩ := bind_eq_ok.mp hi
  cases hi
  obtain ⟨-, hx, hforall⟩ := addDisjuncts_ok hv h (LevelDBScanPlan.create_scans hv) hr
  have hrun : (SelectPlan.single { scan := r.2, predicatesInOr := some r.1 }).run conv db =
      FilterPlan.selectRows conv t css db := by
    rw [SelectPlan.run, ScanPlanInfo.run]
    dsimp only
    rw [LevelDBScanPlan.run_all hv hx.scans hx.range hs, FilterPlan.run_eq hx.scans hforall]
  change ((SelectPlan.single { scan := r.2, predicatesInOr := some r.1 }).run conv db).fault = none at hf
  change (SelectPlan.single { scan := r.2, predicatesInOr := some r.1 }).run conv db = _
  rw [hrun] at hf ⊢
  exact selectRows_of_fault hf fun e _ b hb => testAny_satisfies h hb

theorem runUnion_fault {infos : List ScanPlanInfo} (h : (runUnion conv db infos).fault = none) :
    ∀ info ∈ infos, (info.run conv db).fault = none := by
  induction infos with
  | nil => simp
  | cons info infos ih =>
    rw [runUnion, Run.append] at h
    cases hf : (info.run conv db).fault with
    | some f =>
      rw [hf] at h
      exact absurd (hf ▸ h) (by simp)
    | none =>
      rw [hf] at h
      exact List.forall_mem_cons.mpr ⟨hf, ih h⟩

theorem scans_select_of_fault
    (h : ∀ d ∈ ds, ∃ cs, IsConjunction t d cs ∧ TextsDetermine cs ∧ ExactFloats conv t cs) (hv : t.Valid)
    (hs : Store conv t db) (hc : collectScans conv t ds = .ok (some scans))
    (hf : ∀ info ∈ scans, (info.run conv db).fault = none) :
    List.Forall₂ (fun d info => Selects conv t db (Satisfies conv t d) info) ds scans := by
  have hcreate := collectScans_ok hc
  clear hc
  induction hcreate with
  | nil => exact .nil
  | @cons d info ds scans hi _ ih =>
    refine .cons ?_ (ih (fun d hd => h d (List.mem_cons_of_mem _ hd)) fun i hi => hf i (List.mem_cons_of_mem _ hi))
    obtain ⟨cs, hconj, htext, hexact⟩ := h d (by simp)
    have hplan := (ScanPlanInfo.create_spec hv hconj htext hexact).1 info hi
    obtain ⟨hrun, hin⟩ := conjunction_run hconj htext hexact hv hplan hs (hf info (by simp))
    obtain ⟨r, s, hr, hst⟩ := hplan.range
    exact ⟨⟨r, hr, hst.built, hin r hr⟩, hrun⟩

theorem mem_runUnion (hsel : ∀ info ∈ scans, ∃ p, Selects conv t db p info) (e : Entry) :
    e ∈ (runUnion conv db scans).rows ↔ e ∈ db ∧ scans.any (fun info => picks conv db info e) = true := by
  rw [runUnion_eq hsel]
  simp only [List.mem_flatMap, List.mem_filter, List.any_eq_true]
  constructor
  · rintro ⟨info, hi, he, hp⟩
    exact ⟨he, info, hi, hp⟩
  · rintro ⟨he, info, hi, hp⟩
    exact ⟨info, hi, he, hp⟩

end Disjunctions

theorem buildSelectPlan_conjunction {p : ParseNode} {cs : List Comparison}
    (h : IsConjunction t p cs) (std : StdSort) : buildSelectPlan conv std t p = fullScan conv t p := by
  cases h with
  | comparison cmp hop _ =>
    rw [buildSelectPlan, getOp_node]
    split
    · next ho =>
      rw [ho] at hop
      cases hop
    · rfl
  | and => rfl

/-- No row is delivered twice because ranges that touch at its key belong to different disjuncts. -/
def NoneDoubled (conv : Conversions) (std : StdSort) (t : TableInfo) (q : ParseNode) (db : LevelDB) : Prop :=
  q.getOp = .or → ¬ Doubled conv std t q.children db

/-- Whichever way the builder decides, a plan that ends by itself has delivered the rows that
satisfy the clause, once each and in key order if none is doubled. -/
theorem where_run {p q : ParseNode} {cs : List Comparison} (h : RewrittenWhere t p cs q) (htext : TextsDetermine cs)
    (hexact : ExactFloats conv t cs) (hv : t.Valid) {std : StdSort} {plan : SelectPlan}
    (hp : buildSelectPlan conv std t q = .ok plan) {db : LevelDB} (hs : Store conv t db)
    (hf : (plan.run conv db).fault = none) :
    (∀ e, e ∈ (plan.run conv db).rows ↔ e ∈ db ∧ Satisfies conv t p e = true) ∧
      (NoneDoubled conv std t q db → (plan.run conv db).rows = db.filter (Satisfies conv t p)) := by
  have hwhole : plan.run conv db = ⟨db.filter (Satisfies conv t p), none⟩ →
      (∀ e, e ∈ (plan.run conv db).rows ↔ e ∈ db ∧ Satisfies conv t p e = true) ∧
        (NoneDoubled conv std t q db → (plan.run conv db).rows = db.filter (Satisfies conv t p)) := by
    intro hrun
    rw [hrun]
    exact ⟨fun e => List.mem_filter, fun _ => rfl⟩
  cases h with
  | conjunction hc =>
    rw [buildSelectPlan_conjunction hc] at hp
    obtain ⟨info, hi, hp⟩ := bind_eq_ok.mp hp
    cases hp
    exact hwhole (conjunction_run hc htext hexact hv ((ScanPlanInfo.create_spec hv hc htext hexact).1 info hi) hs hf).1
  | @disjunction sx ds hd =>
    have hmeans : (fun e => ds.any (fun d => Satisfies conv t d e)) = Satisfies conv t p := by
      funext e
      exact hd.meaning (t.valuation conv e)
    have hall : ∀ d ∈ ds, ∃ cs, IsConjunction t d cs ∧ TextsDetermine cs ∧ ExactFloats conv t cs := by
      intro d hdm
      obtain ⟨cs', hconj, hsub⟩ := hd.conjunctions d hdm
      exact ⟨cs', hconj, fun a ha b hb => htext a (hsub ha) b (hsub hb), fun cmp hc => hexact cmp (hsub hc)⟩
    have hfullScan : fullScan conv t (.node .op .or sx [] ds) = .ok plan →
        plan.run conv db = ⟨db.filter (Satisfies conv t p), none⟩ := by
      intro hfull
      choose! css hcss using hall
      have hforall : List.Forall₂ (IsConjunction t) ds (ds.map css) :=
        List.forall₂_map_right_iff.mpr (List.forall₂_same.mpr fun d hdm => (hcss d hdm).1)
      rw [← hmeans]
      exact disjunction_fullScan hforall hv hfull hs hf
    obtain ⟨r, hr, hp⟩ := bind_eq_ok.mp hp
    rw [children_node] at hr
    cases r with
    | none => exact hwhole (hfullScan hp)
    | some scans =>
      obtain ⟨b, hb, hp⟩ := bind_eq_ok.mp hp
      cases b with
      | false => exact hwhole (hfullScan hp)
      | true =>
        cases hp
        have hperm := std.perm (ScanPlanInfo.startsBefore conv) scans
        have hsel := scans_select_of_fault hall hv hs hr fun info hi => runUnion_fault hf info (hperm.mem_iff.mpr hi)
        have hmem : ∀ info ∈ std.sort (ScanPlanInfo.startsBefore conv) scans, ∃ p, Selects conv t db p info := by
          intro info hi
          obtain ⟨i, hi⟩ := List.mem_iff_getElem?.mp (hperm.mem_iff.mp hi)
          obtain ⟨d, -, hd⟩ := selects_at hsel hi
          exact ⟨_, hd⟩
        refine ⟨fun e => ?_, fun hnone => ?_⟩
        · refine (mem_runUnion hmem e).trans (and_congr_right fun he => ?_)
          rw [hperm.any_eq, any_picks he hsel, ← hmeans]
        · rw [← hmeans]
          exact congrArg Run.rows ((union_run hsel hv hs std hr hb).mpr (hnone rfl))

end LevelPgServer.LevelDBPlanBuilder
