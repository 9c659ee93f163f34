import LevelPgServer.Execution.RowMeaning
import LevelPgServer.Lib.SortedFilter
import LevelPgServer.PlanBuilder.ScanPlan

namespace LevelPgServer.LevelDBPlanBuilder

open ParseNode KeySearchRange KeyOrder ExceptRules ThreeWay RangeBuild RowMeaning LexRange

variable {conv : Conversions} {t : TableInfo}

/-- A disjunct that the builder is given: a conjunction whose texts determine its
comparisons, with exact constants and LIKE on strings only. -/
structure Disjunct (conv : Conversions) (t : TableInfo) (p : ParseNode) (cs : List Comparison) : Prop where
  conjunction : IsConjunction t p cs
  texts : TextsDetermine cs
  exact_ : ExactFloats conv t cs
  like : LikeOnStrings t cs

def Satisfies (conv : Conversions) (t : TableInfo) (p : ParseNode) (e : Entry) : Bool :=
  Predicate.holds (t.valuation conv e) p

theorem Disjunct.tests {p : ParseNode} {cs : List Comparison} (h : Disjunct conv t p cs) (hv : t.Valid)
    (hconv : ∀ cmp ∈ cs, cmp.Converts conv t) {db : LevelDB} (hs : Store conv t db) {e : Entry} (he : e ∈ db) :
    FilterPlan.testAll conv t e cs = .ok (Satisfies conv t p e) := by
  refine holds_of_testAll h.conjunction fun cmp hc => ?_
  obtain ⟨hop, c, value, ha⟩ := Conjunction.isConjunction_test h.conjunction cmp hc
  exact test_ok hv hs he h.like hc hop ha (hconv cmp hc)

theorem selectRows_eq {css : List (List Comparison)} {g : Entry → Bool} {es : List Entry}
    (h : ∀ e ∈ es, FilterPlan.testAny conv t e css = .ok (g e)) :
    FilterPlan.selectRows conv t css es = ⟨es.filter g, none⟩ := by
  induction es with
  | nil => rfl
  | cons e es ih =>
    rw [FilterPlan.selectRows, h e (by simp), ih fun a ha => h a (List.mem_cons_of_mem _ ha)]
    cases hg : g e with
    | true =>
      rw [List.filter_cons_of_pos (by simpa using hg)]
      rfl
    | false => rw [List.filter_cons_of_neg (by simp [hg])]

theorem Disjunct.run_eq {p : ParseNode} {cs : List Comparison} (h : Disjunct conv t p cs) (hv : t.Valid)
    {info : ScanPlanInfo} (hi : ScanPlanInfo.PlanOf conv t cs info) {db : LevelDB} (hs : Store conv t db) :
    info.run conv db = ⟨db.filter (Satisfies conv t p), none⟩ := by
  have hsel : FilterPlan.selectRows conv t [cs] db = ⟨db.filter (Satisfies conv t p), none⟩ :=
    selectRows_eq fun e he => by rw [FilterPlan.testAny_singleton, h.tests hv hi.converts hs he]
  rw [hi.run_selects hv h.texts h.exact_ hs (by rw [hsel]), hsel]

theorem testAny_eq {ds : List ParseNode} {css : List (List Comparison)} (h : List.Forall₂ (Disjunct conv t) ds css)
    (hv : t.Valid) (hconv : ∀ cs ∈ css, ∀ cmp ∈ cs, cmp.Converts conv t) {db : LevelDB} (hs : Store conv t db)
    {e : Entry} (he : e ∈ db) :
    FilterPlan.testAny conv t e css = .ok (ds.any (fun d => Satisfies conv t d e)) := by
  induction h with
  | nil => rfl
  | cons hd _ ih =>
    rw [FilterPlan.testAny, hd.tests hv (hconv _ (by simp)) hs he, ok_bind, List.any_cons,
      ih fun cs hc => hconv cs (List.mem_cons_of_mem _ hc)]
    split
    · next h => rw [h]; rfl
    · next h => rw [Bool.not_eq_true] at h; rw [h]; rfl

theorem addDisjuncts_ok (hv : t.Valid) {ds : List ParseNode} {css : List (List Comparison)}
    (h : List.Forall₂ (IsConjunction t) ds css) {scan : LevelDBScanPlan} (hp : scan.Scans t)
    {r : List (List FilterPlan.PredicateInfo) × LevelDBScanPlan} (hr : ScanPlanInfo.addDisjuncts conv ds scan = .ok r) :
    (∀ cs ∈ css, ∀ cmp ∈ cs, cmp.Converts conv t) ∧ LevelDBScanPlan.Extends t scan r.2 ∧
      List.Forall₂ (List.Forall₂ (FilterPlan.Evaluates conv t r.2)) css r.1 := by
  induction h generalizing scan r with
  | nil =>
    cases hr
    exact ⟨by simp, .refl hp, .nil⟩
  | @cons d cs ds css hd _ ih =>
    obtain ⟨s', hs', hr⟩ := bind_eq_ok.mp hr
    obtain ⟨rest, hrest, hr⟩ := bind_eq_ok.mp hr
    cases hr
    have hkept : FilterPlan.kept [] cs = cs := by simp [FilterPlan.kept]
    obtain ⟨hok, herr⟩ := @FilterPlan.doAddPredicate_spec conv _ hv [] _ _ hd ([], scan) hp
    rw [hkept] at hok herr
    have hconv : ∀ cmp ∈ cs, cmp.Converts conv t := by
      by_contra hn
      push Not at hn
      obtain ⟨f, hf⟩ := herr hn
      rw [FilterPlan.addPredicate, hf] at hs'
      cases hs'
    obtain ⟨s'', hs'', hx, infos, hi, hf⟩ := hok hconv
    rw [FilterPlan.addPredicate, hs''] at hs'
    cases hs'
    rw [hkept] at hf
    obtain ⟨hc, hx', hf'⟩ := ih hx.scans hrest
    refine ⟨List.forall_mem_cons.mpr ⟨hconv, hc⟩, hx.trans hx', .cons ?_ hf'⟩
    rw [hi, List.nil_append]
    exact hf.imp fun _ _ he => he.extends hx'

/-- The full scan of a disjunction delivers the rows that satisfy it. -/
theorem fullScan_run (hv : t.Valid) {sx sv : Bytes} {ds : List ParseNode} {css : List (List Comparison)}
    (h : List.Forall₂ (Disjunct conv t) ds css) {plan : SelectPlan}
    (hp : fullScan conv t (.node .op .or sx sv ds) = .ok plan) {db : LevelDB} (hs : Store conv t db) :
    plan.run conv db = ⟨db.filter (Satisfies conv t (.node .op .or sx sv ds)), none⟩ := by
  obtain ⟨info, hi, hp⟩ := bind_eq_ok.mp hp
  cases hp
  obtain ⟨r, hr, hi⟩ := bind_eq_ok.mp hi
  cases hi
  obtain ⟨hconv, hx, hf⟩ := addDisjuncts_ok hv (h.imp fun _ _ hd => hd.conjunction) (LevelDBScanPlan.create_scans hv) hr
  rw [SelectPlan.run, ScanPlanInfo.run]
  dsimp only
  rw [LevelDBScanPlan.run_all hv hx.scans hx.range hs, FilterPlan.run_eq hx.scans hf]
  refine selectRows_eq fun e he => ?_
  rw [testAny_eq h hv hconv hs he, Satisfies, Predicate.holds_or]
  rfl

/-- The range of `a` ends at the key `ks` and that of `b` starts there, both inclusively. -/
def TouchesAt (ks : List ExecutionResult) (a b : ScanPlanInfo) : Prop :=
  ∃ r s, a.scan.searchRange = some r ∧ b.scan.searchRange = some s ∧ r.endInclusive = true ∧
    ranks r.endKeyResults = ranks ks ∧ s.startInclusive = true ∧ ranks s.startKeyResults = ranks ks

/-- The builder decides for one scan for each disjunct although two of their ranges
touch at the key of a row that satisfies both disjuncts. -/
def Doubled (conv : Conversions) (std : StdSort) (t : TableInfo) (ds : List ParseNode) (db : LevelDB) : Prop :=
  ∃ scans, collectScans conv t ds = .ok (some scans) ∧
    checkNeighbours conv (std.sort (ScanPlanInfo.startsBefore conv) scans) = .ok true ∧
      ∃ (i j : Nat) (d d' : ParseNode) (a b : ScanPlanInfo), i ≠ j ∧ ds[i]? = some d ∧ ds[j]? = some d' ∧
        scans[i]? = some a ∧ scans[j]? = some b ∧
          ∃ e ∈ db, Satisfies conv t d e = true ∧ Satisfies conv t d' e = true ∧ TouchesAt (t.keyOf e) a b

/-- What the plan of a disjunct offers: a range that was built, around the rows that `p` selects. -/
structure Selects (conv : Conversions) (t : TableInfo) (db : LevelDB) (p : Entry → Bool) (info : ScanPlanInfo) : Prop where
  range : ∃ r, info.scan.searchRange = some r ∧ r.Built conv t ∧ ∀ e ∈ db, p e = true → r.Contains (t.keyOf e)
  run : info.run conv db = ⟨db.filter p, none⟩

theorem Disjunct.selects {p : ParseNode} {cs : List Comparison} (h : Disjunct conv t p cs) (hv : t.Valid)
    {info : ScanPlanInfo} (hi : ScanPlanInfo.create conv t p = .ok info) {db : LevelDB} (hs : Store conv t db) :
    Selects conv t db (Satisfies conv t p) info := by
  have hplan := (ScanPlanInfo.create_spec hv h.conjunction h.texts h.exact_).1 info hi
  obtain ⟨r, s, hr, hst⟩ := hplan.range
  refine ⟨⟨r, hr, hst.built, fun e he hp => ?_⟩, h.run_eq hv hplan hs⟩
  have htest := h.tests hv hplan.converts hs he
  rw [hp] at htest
  exact (hst.contains_iff hv h.texts h.exact_ hs he).mpr fun cmp hc _ => FilterPlan.testAll_eq_true.mp htest cmp hc

/-- Where a range stands in the order of `compareStart`. -/
def startKey (info : ScanPlanInfo) : WithBot (List Rank) :=
  match info.scan.searchRange with
  | none => ⊥
  | some r => if r.seekToFirst then ⊥ else ↑(ranks r.startKeyResults)

theorem startKey_eq {info : ScanPlanInfo} {r : KeySearchRange} (h : info.scan.searchRange = some r) :
    startKey info = if r.seekToFirst then ⊥ else ↑(ranks r.startKeyResults) := by rw [startKey, h]

theorem compareStart_eq {a b : ScanPlanInfo} {r s : KeySearchRange} (ha : a.scan.searchRange = some r)
    (hb : b.scan.searchRange = some s) (hr : r.Built conv t) (hs : s.Built conv t) :
    a.compareStart conv b = .ok (order (startKey a) (startKey b)) := by
  have hcompare : a.compareStart conv b = r.compareStart conv s := by rw [ScanPlanInfo.compareStart, ha, hb]
  rw [hcompare, startKey_eq ha, startKey_eq hb, KeySearchRange.compareStart]
  cases r.seekToFirst with
  | true =>
    cases s.seekToFirst with
    | true => simp
    | false =>
      have hlt : (⊥ : WithBot (List Rank)) < ↑(ranks s.startKeyResults) := WithBot.bot_lt_coe _
      simp [order_of_lt hlt]
  | false =>
    cases s.seekToFirst with
    | true =>
      have hlt : (⊥ : WithBot (List Rank)) < ↑(ranks r.startKeyResults) := WithBot.bot_lt_coe _
      simp [order_of_gt hlt]
    | false =>
      simp only [Bool.false_eq_true, if_false]
      rw [hr.keyTypes, compareResults_eq conv hr.startOrdered hs.startOrdered]
      congr 1
      exact (order_map (f := fun x : List Rank => (x : WithBot (List Rank)))
        (fun _ _ h => WithBot.coe_lt_coe.mpr h) _ _).symm

theorem startsBefore_eq {a b : ScanPlanInfo} {r s : KeySearchRange} (ha : a.scan.searchRange = some r)
    (hb : b.scan.searchRange = some s) (hr : r.Built conv t) (hs : s.Built conv t) :
    ScanPlanInfo.startsBefore conv a b = decide (startKey a < startKey b) := by
  simp [ScanPlanInfo.startsBefore, compareStart_eq ha hb hr hs, order_eq_lt]

theorem startAfterEnd_ok {a b : ScanPlanInfo} {r s : KeySearchRange} (ha : a.scan.searchRange = some r)
    (hb : b.scan.searchRange = some s) (hr : r.Built conv t) (hs : s.Built conv t)
    (h : b.startAfterEnd conv a = .ok true) :
    s.seekToFirst = false ∧ ranks r.endKeyResults ≤ ranks s.startKeyResults := by
  rw [ScanPlanInfo.startAfterEnd, ha, hb] at h
  dsimp only at h
  rw [KeySearchRange.startAfterEnd] at h
  split at h
  · cases h
  · next hn =>
    rw [hs.keyTypes, compareResults_eq conv hs.startOrdered hr.endOrdered, ok_bind, pure_eq_ok] at h
    refine ⟨(by simpa using hn : s.seekToFirst = false ∧ r.seekToLast = false).1, ?_⟩
    rcases lt_trichotomy (ranks r.endKeyResults) (ranks s.startKeyResults) with hlt | heq | hgt
    · exact hlt.le
    · exact heq.le
    · rw [order_of_lt hgt] at h
      cases h

/-- The check of neighbours, in the order of the starts, puts the end of every range
before the start of every later one. -/
theorem ends_le_starts {infos : List ScanPlanInfo}
    (hb : ∀ info ∈ infos, ∃ r, info.scan.searchRange = some r ∧ r.Built conv t)
    (hs : infos.Pairwise (fun a b => startKey a ≤ startKey b)) (hc : checkNeighbours conv infos = .ok true) :
    infos.Pairwise (fun a b => ∀ r s, a.scan.searchRange = some r → b.scan.searchRange = some s →
      ranks r.endKeyResults ≤ ranks s.startKeyResults) := by
  induction infos with
  | nil => exact .nil
  | cons a rest ih =>
    cases rest with
    | nil => exact List.pairwise_singleton _ _
    | cons b rest =>
      obtain ⟨after, hafter, hc⟩ := bind_eq_ok.mp hc
      cases after with
      | false => cases hc
      | true =>
        have hrec := ih (fun i hi => hb i (List.mem_cons_of_mem _ hi)) hs.of_cons hc
        refine List.pairwise_cons.mpr ⟨fun c hcm r s har hcs => ?_, hrec⟩
        obtain ⟨r', har', hrb⟩ := hb a (by simp)
        obtain rfl : r' = r := Option.some.inj (har'.symm.trans har)
        obtain ⟨u, hbu, hub⟩ := hb b (by simp)
        obtain ⟨hfirst, hle⟩ := startAfterEnd_ok har hbu hrb hub hafter
        rcases List.mem_cons.mp hcm with rfl | hcm
        · obtain rfl : u = s := Option.some.inj (hbu.symm.trans hcs)
          exact hle
        · have hkey := (List.pairwise_cons.mp hs.of_cons).1 c hcm
          rw [startKey_eq hbu, startKey_eq hcs, hfirst, if_neg (by decide)] at hkey
          split at hkey
          · exact absurd hkey (by simp)
          · exact hle.trans (WithBot.coe_le_coe.mp hkey)

/-- Rows of a range come before those of a later one, except a row at which the two touch. -/
theorem Selects.le {db : LevelDB} {p q : Entry → Bool} {a b : ScanPlanInfo} (ha : Selects conv t db p a)
    (hb : Selects conv t db q b)
    (hle : ∀ r s, a.scan.searchRange = some r → b.scan.searchRange = some s →
      ranks r.endKeyResults ≤ ranks s.startKeyResults) {x y : Entry} (hx : x ∈ db) (hy : y ∈ db) (hpx : p x = true)
    (hqy : q y = true) : ranks (t.keyOf x) ≤ ranks (t.keyOf y) ∧
      (ranks (t.keyOf x) = ranks (t.keyOf y) → TouchesAt (t.keyOf x) a b) := by
  obtain ⟨r, hr, -, hrc⟩ := ha.range
  obtain ⟨s, hs, -, hsc⟩ := hb.range
  have hend := (hrc x hx hpx).2
  have hstart := (hsc y hy hqy).1
  have hmid := hle r s hr hs
  refine ⟨hend.le.trans (hmid.trans hstart.le), fun heq => ?_⟩
  have h1 : ranks r.endKeyResults = ranks (t.keyOf x) := le_antisymm (heq ▸ hmid.trans hstart.le) hend.le
  have h2 : ranks s.startKeyResults = ranks (t.keyOf x) := le_antisymm (heq ▸ hstart.le) (h1 ▸ hmid)
  refine ⟨r, s, hr, hs, ?_, h1, ?_, h2⟩
  · by_contra hi
    rw [Bool.not_eq_true] at hi
    rw [hi, beforeEnd_false, h1] at hend
    exact lt_irrefl _ hend
  · by_contra hi
    rw [Bool.not_eq_true] at hi
    rw [hi, afterStart_false, h2, heq] at hstart
    exact lt_irrefl _ hstart

def picks (conv : Conversions) (db : LevelDB) (info : ScanPlanInfo) (e : Entry) : Bool := e ∈ (info.run conv db).rows

theorem Selects.picks_eq {db : LevelDB} {p : Entry → Bool} {info : ScanPlanInfo} (h : Selects conv t db p info)
    {e : Entry} (he : e ∈ db) : picks conv db info e = p e := by
  simp [picks, h.run, he]

theorem runUnion_eq {db : LevelDB} {infos : List ScanPlanInfo} (h : ∀ info ∈ infos, ∃ p, Selects conv t db p info) :
    runUnion conv db infos = ⟨infos.flatMap (fun info => db.filter (picks conv db info)), none⟩ := by
  induction infos with
  | nil => rfl
  | cons info infos ih =>
    obtain ⟨p, hp⟩ := h info (by simp)
    have hrun : info.run conv db = ⟨db.filter (picks conv db info), none⟩ := by
      rw [hp.run]
      congr 1
      exact List.filter_congr fun e he => (hp.picks_eq he).symm
    rw [runUnion, hrun, ih fun i hi => h i (List.mem_cons_of_mem _ hi)]
    rfl

theorem collectScans_ok {ds : List ParseNode} {scans : List ScanPlanInfo}
    (h : collectScans conv t ds = .ok (some scans)) :
    List.Forall₂ (fun d info => ScanPlanInfo.create conv t d = .ok info) ds scans := by
  induction ds generalizing scans with
  | nil =>
    cases h
    exact .nil
  | cons d ds ih =>
    obtain ⟨info, hi, h⟩ := bind_eq_ok.mp h
    split at h
    · cases h
    · obtain ⟨rest, hrest, h⟩ := bind_eq_ok.mp h
      obtain ⟨infos, rfl, rfl⟩ := Option.map_eq_some_iff.mp (Except.ok.inj h)
      exact .cons hi (ih hrest)

section Union

variable {ds : List ParseNode} {css : List (List Comparison)} {scans : List ScanPlanInfo} {db : LevelDB}

theorem scans_select (h : List.Forall₂ (Disjunct conv t) ds css) (hv : t.Valid) (hs : Store conv t db)
    (hc : collectScans conv t ds = .ok (some scans)) :
    List.Forall₂ (fun d info => Selects conv t db (Satisfies conv t d) info) ds scans := by
  have hcreate := collectScans_ok hc
  clear hc
  induction h generalizing scans with
  | nil =>
    cases hcreate
    exact .nil
  | cons hd _ ih =>
    cases hcreate with
    | cons hi hcreate => exact .cons (hd.selects hv hi hs) (ih hcreate)

theorem any_picks {e : Entry} (he : e ∈ db)
    (hsel : List.Forall₂ (fun d info => Selects conv t db (Satisfies conv t d) info) ds scans) :
    scans.any (fun info => picks conv db info e) = ds.any (fun d => Satisfies conv t d e) := by
  induction hsel with
  | nil => rfl
  | cons hd _ ih => rw [List.any_cons, List.any_cons, hd.picks_eq he, ih]

theorem selects_at (hsel : List.Forall₂ (fun d info => Selects conv t db (Satisfies conv t d) info) ds scans) {i : Nat}
    {a : ScanPlanInfo} (ha : scans[i]? = some a) : ∃ d, ds[i]? = some d ∧ Selects conv t db (Satisfies conv t d) a := by
  obtain ⟨hi, rfl⟩ := List.getElem?_eq_some_iff.mp ha
  have hid : i < ds.length := hsel.length_eq ▸ hi
  exact ⟨ds[i], List.getElem?_eq_getElem hid, (List.forall₂_iff_get.mp hsel).2 i hid hi⟩

/-- No row at which two ranges touch is picked by both. -/
def Apart (conv : Conversions) (t : TableInfo) (db : LevelDB) (a b : ScanPlanInfo) : Prop :=
  ∀ e ∈ db, picks conv db a e = true → picks conv db b e = true →
    ¬ TouchesAt (t.keyOf e) a b ∧ ¬ TouchesAt (t.keyOf e) b a

theorem Apart.symm {a b : ScanPlanInfo} (h : Apart conv t db a b) : Apart conv t db b a :=
  fun e he hb ha => (h e he ha hb).symm

theorem not_doubled_iff (hsel : List.Forall₂ (fun d info => Selects conv t db (Satisfies conv t d) info) ds scans)
    {std : StdSort} (hc : collectScans conv t ds = .ok (some scans))
    (hn : checkNeighbours conv (std.sort (ScanPlanInfo.startsBefore conv) scans) = .ok true) :
    ¬ Doubled conv std t ds db ↔ scans.Pairwise (Apart conv t db) := by
  constructor
  · intro h
    rw [List.pairwise_iff_getElem]
    intro i j hi hj hij e he hpa hpb
    have ha := List.getElem?_eq_getElem hi
    have hb := List.getElem?_eq_getElem hj
    obtain ⟨d, hd, hda⟩ := selects_at hsel ha
    obtain ⟨d', hd', hdb⟩ := selects_at hsel hb
    rw [hda.picks_eq he] at hpa
    rw [hdb.picks_eq he] at hpb
    constructor
    · intro htouch
      exact h ⟨scans, hc, hn, i, j, d, d', _, _, hij.ne, hd, hd', ha, hb, e, he, hpa, hpb, htouch⟩
    · intro htouch
      exact h ⟨scans, hc, hn, j, i, d', d, _, _, hij.ne', hd', hd, hb, ha, e, he, hpb, hpa, htouch⟩
  · rintro h ⟨scans', hc', -, i, j, d, d', a, b, hij, hd, hd', ha, hb, e, he, hpd, hpd', htouch⟩
    rw [hc] at hc'
    cases hc'
    obtain ⟨u, hu, hua⟩ := selects_at hsel ha
    obtain ⟨u', hu', hub⟩ := selects_at hsel hb
    obtain rfl : u = d := Option.some.inj (hu.symm.trans hd)
    obtain rfl : u' = d' := Option.some.inj (hu'.symm.trans hd')
    rw [← hua.picks_eq he] at hpd
    rw [← hub.picks_eq he] at hpd'
    obtain ⟨hi, rfl⟩ := List.getElem?_eq_some_iff.mp ha
    obtain ⟨hj, rfl⟩ := List.getElem?_eq_some_iff.mp hb
    rcases Nat.lt_or_gt_of_ne hij with hlt | hgt
    · exact (List.pairwise_iff_getElem.mp h i j hi hj hlt e he hpd hpd').1 htouch
    · exact (List.pairwise_iff_getElem.mp h j i hj hi hgt e he hpd' hpd).2 htouch

/-- One scan for each disjunct delivers what the disjunction selects exactly when no row
at which two ranges touch satisfies both disjuncts. -/
theorem union_run (hsel : List.Forall₂ (fun d info => Selects conv t db (Satisfies conv t d) info) ds scans)
    (hv : t.Valid) (hs : Store conv t db) (std : StdSort) (hc : collectScans conv t ds = .ok (some scans))
    (hn : checkNeighbours conv (std.sort (ScanPlanInfo.startsBefore conv) scans) = .ok true) :
    runUnion conv db (std.sort (ScanPlanInfo.startsBefore conv) scans) =
        ⟨db.filter (fun e => ds.any (fun d => Satisfies conv t d e)), none⟩ ↔ ¬ Doubled conv std t ds db := by
  let sorted := std.sort (ScanPlanInfo.startsBefore conv) scans
  have hperm : sorted.Perm scans := std.perm _ scans
  have hmem : ∀ info ∈ sorted, ∃ p, Selects conv t db p info := by
    intro info hi
    obtain ⟨i, hi⟩ := List.mem_iff_getElem?.mp (hperm.mem_iff.mp hi)
    obtain ⟨d, -, hd⟩ := selects_at hsel hi
    exact ⟨_, hd⟩
  have hbuilt : ∀ info ∈ sorted, ∃ r, info.scan.searchRange = some r ∧ r.Built conv t := by
    intro info hi
    obtain ⟨p, hp⟩ := hmem info hi
    obtain ⟨r, hr, hb, -⟩ := hp.range
    exact ⟨r, hr, hb⟩
  have hkeys : sorted.Pairwise (fun a b => startKey a ≤ startKey b) := by
    refine std.sorted _ scans startKey fun a ha b hb => ?_
    obtain ⟨r, hr, hrb⟩ := hbuilt a (hperm.mem_iff.mpr ha)
    obtain ⟨s, hs, hsb⟩ := hbuilt b (hperm.mem_iff.mpr hb)
    exact (startsBefore_eq hr hs hrb hsb).trans (decide_eq_decide.mpr Iff.rfl)
  have hle := ends_le_starts hbuilt hkeys hn
  have hstrict := hs.pairwise_ranks hv
  have hany : db.filter (fun e => ds.any (fun d => Satisfies conv t d e)) =
      db.filter (fun e => sorted.any (fun info => picks conv db info e)) := by
    refine List.filter_congr fun e he => ?_
    rw [hperm.any_eq, any_picks he hsel]
  rw [show std.sort (ScanPlanInfo.startsBefore conv) scans = sorted from rfl, runUnion_eq hmem, not_doubled_iff hsel hc hn,
    ← hperm.pairwise_iff Apart.symm, hany]
  constructor
  · intro heq
    have hnodup : (sorted.flatMap (fun info => db.filter (picks conv db info))).Nodup := by
      rw [(Run.mk.inj heq).1]
      exact (hstrict.imp fun hlt he => absurd (congrArg (fun e => ranks (t.keyOf e)) he) hlt.ne).filter _
    refine (SortedFilter.disjoint_of_nodup hnodup).imp fun {a b} hdis e he ha hb => ?_
    rw [hdis e he ha] at hb
    cases hb
  · intro hapart
    congr 1
    refine SortedFilter.flatMap_filter hstrict ?_
    refine List.Pairwise.imp_of_mem (fun {a b} ha hb hab x hx y hy hpx hqy => ?_) (hle.and hapart)
    obtain ⟨p, hp⟩ := hmem a ha
    obtain ⟨q, hq⟩ := hmem b hb
    have hxp := hp.picks_eq hx ▸ hpx
    have hyq := hq.picks_eq hy ▸ hqy
    obtain ⟨hxy, htouch⟩ := hp.le hq hab.1 hx hy hxp hyq
    refine lt_of_le_of_ne hxy fun heq => ?_
    -- the keys are strictly ascending, so rows in the same place of the order are one row
    have hsame : x = y := SortedFilter.eq_of_place_eq hstrict hx hy heq
    subst hsame
    exact (hab.2 x hx hpx hqy).1 (htouch rfl)

end Union

/-- The plan of a disjunction delivers exactly the rows that satisfy it, once each and in
key order, unless ranges that touch at a row's key make it deliver the row twice. -/
theorem buildSelectPlan_run_iff (conv : Conversions) (std : StdSort) (t : TableInfo) (hv : t.Valid) (sx sv : Bytes)
    (ds : List ParseNode) (css : List (List Comparison)) (h : List.Forall₂ (Disjunct conv t) ds css) (plan : SelectPlan)
    (hp : buildSelectPlan conv std t (.node .op .or sx sv ds) = .ok plan) (db : LevelDB) (hs : Store conv t db) :
    plan.run conv db = ⟨db.filter (Satisfies conv t (.node .op .or sx sv ds)), none⟩ ↔ ¬ Doubled conv std t ds db := by
  have hor : Satisfies conv t (.node .op .or sx sv ds) = fun e => ds.any (fun d => Satisfies conv t d e) := by
    funext e
    rw [Satisfies, Predicate.holds_or]
    rfl
  have hfull : fullScan conv t (.node .op .or sx sv ds) = .ok plan →
      plan.run conv db = ⟨db.filter (Satisfies conv t (.node .op .or sx sv ds)), none⟩ :=
    fun hf => fullScan_run hv h hf hs
  obtain ⟨r, hr, hp⟩ := bind_eq_ok.mp hp
  rw [children_node] at hr
  cases r with
  | none =>
    refine iff_of_true (hfull hp) ?_
    rintro ⟨scans, hc, -⟩
    rw [hr] at hc
    cases hc
  | some scans =>
    obtain ⟨b, hb, hp⟩ := bind_eq_ok.mp hp
    cases b with
    | false =>
      refine iff_of_true (hfull hp) ?_
      rintro ⟨scans', hc, hn, -⟩
      rw [hr] at hc
      cases hc
      rw [hb] at hn
      cases hn
    | true =>
      cases hp
      rw [hor]
      exact union_run (scans_select h hv hs hr) hv hs std hr hb

open ScanPlanInfo (nameTable nameTable_valid nameTable_exactFloats nameNode nameComparison nameNode_isConjunction)

theorem nameNode_disjunct {op : Operation} (hop : Predicate.isComparison op = true) (hl : op ≠ .compLike)
    (sExpr s : Bytes) : Disjunct conv nameTable (nameNode op sExpr s) [nameComparison op sExpr s] where
  conjunction := nameNode_isConjunction hop sExpr s
  texts a ha b hb _ := (List.mem_singleton.mp ha).trans (List.mem_singleton.mp hb).symm
  exact_ := nameTable_exactFloats _
  like cmp hc ho := by
    obtain rfl := List.mem_singleton.mp hc
    exact absurd ho hl

/-- The row with the name `e`. -/
def rowE : LevelDB := [([1, 0, 101], [])]

theorem rowE_store : Store conv nameTable rowE where
  ordered := List.pairwise_singleton _ _
  keys e he := by
    obtain rfl := List.mem_singleton.mp he
    exact ⟨[.string [101]], .cons rfl .nil, by simp [Readable], by simp, [[1, 0, 101]], rfl, rfl⟩
  values e _ i hi := absurd hi (Nat.not_lt_zero i)

/-- `a = 'b' OR a = 'e'`. -/
def nameOneOf : List ParseNode := [nameNode .compEq (bytes "a='b'") (bytes "b"), nameNode .compEq (bytes "a='e'") (bytes "e")]

theorem buildSelectPlan_run_iff_nameOneOf :
    ∃ plan, buildSelectPlan decimalConversions insertionSort nameTable (.node .op .or [] [] nameOneOf) = .ok plan ∧
      (plan.run decimalConversions rowE =
          ⟨rowE.filter (Satisfies decimalConversions nameTable (.node .op .or [] [] nameOneOf)), none⟩ ↔
        ¬ Doubled decimalConversions insertionSort nameTable nameOneOf rowE) :=
  ⟨_, rfl, buildSelectPlan_run_iff decimalConversions insertionSort nameTable nameTable_valid [] [] nameOneOf
    [[nameComparison .compEq (bytes "a='b'") (bytes "b")], [nameComparison .compEq (bytes "a='e'") (bytes "e")]]
    (.cons (nameNode_disjunct rfl (by decide) _ _) (.cons (nameNode_disjunct rfl (by decide) _ _) .nil)) _ rfl rowE
    rowE_store⟩

/-- `(a >= 'a' AND a <= 'e') OR (a > 'e' AND a < 'e') OR a = 'e'`. -/
def nameTwice : ParseNode :=
  .node .op .or [] [] [
    .node .op .and [] [] [nameNode .compGe (bytes "a>='a'") (bytes "a"), nameNode .compLe (bytes "a<='e'") (bytes "e")],
    .node .op .and [] [] [nameNode .compGt (bytes "a>'e'") (bytes "e"), nameNode .compLt (bytes "a<'e'") (bytes "e")],
    nameNode .compEq (bytes "a='e'") (bytes "e")]

/-- The empty range between the other two hides from the check that they touch. -/
theorem nameTwice_run :
    ∃ plan, buildSelectPlan decimalConversions insertionSort nameTable nameTwice = .ok plan ∧
      plan.run decimalConversions rowE = ⟨[([1, 0, 101], []), ([1, 0, 101], [])], none⟩ ∧
        rowE.filter (Satisfies decimalConversions nameTable nameTwice) = [([1, 0, 101], [])] :=
  ⟨_, rfl, rfl, rfl⟩

end LevelPgServer.LevelDBPlanBuilder
