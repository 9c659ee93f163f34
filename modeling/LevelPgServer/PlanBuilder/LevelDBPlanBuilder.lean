import LevelPgServer.Execution.FilterPlan

namespace LevelPgServer.LevelDBPlanBuilder

open ParseNode

/-- A scan, the filter above it if there is one, and the texts of the comparisons that
the range of the scan stands for. -/
structure ScanPlanInfo where
  scan : LevelDBScanPlan
  predicatesInOr : Option (List (List FilterPlan.PredicateInfo)) := none
  solved : List Bytes := []

mutual

def needFilter (solved : List Bytes) : ParseNode → Bool
  | .null => true
  | .node _ op sExpr _ children => if op = .and then anyNeedFilter solved children else sExpr ∉ solved

def anyNeedFilter (solved : List Bytes) : List ParseNode → Bool
  | [] => false
  | c :: cs => needFilter solved c || anyNeedFilter solved cs

end

namespace ScanPlanInfo

variable (conv : Conversions)

def addDisjuncts : List ParseNode → LevelDBScanPlan → Fallible (List (List FilterPlan.PredicateInfo) × LevelDBScanPlan)
  | [], scan => .ok ([], scan)
  | c :: cs, scan => do
    let (infos, scan) ← FilterPlan.addPredicate conv LevelDBScanPlan.ops [] c scan
    let (rest, scan) ← addDisjuncts cs scan
    return (infos :: rest, scan)

def create (t : TableInfo) (pPredicate : ParseNode) : Fallible ScanPlanInfo :=
  let scan := LevelDBScanPlan.create t
  match pPredicate with
  | .null => .ok { scan }
  | .node _ .or _ _ children => do
    let (infos, scan) ← addDisjuncts conv children scan
    return { scan, predicatesInOr := some infos }
  | p => do
    let (scan, solved) ← scan.setPredicate conv p
    if needFilter solved p then
      let (infos, scan) ← FilterPlan.addPredicate conv LevelDBScanPlan.ops solved p scan
      return { scan, predicatesInOr := some [infos], solved }
    else return { scan, solved }

def isFullScan (info : ScanPlanInfo) : Bool := info.solved.isEmpty

def run (info : ScanPlanInfo) (db : LevelDB) : Run Entry :=
  match info.predicatesInOr with
  | none => info.scan.run conv db
  | some predicatesInOr => FilterPlan.run conv LevelDBScanPlan.ops predicatesInOr info.scan (info.scan.run conv db)

def compareStart (a b : ScanPlanInfo) : Fallible Ordering :=
  match a.scan.searchRange, b.scan.searchRange with
  | some r, some s => r.compareStart conv s
  | _, _ => .error .undefined

def startAfterEnd (a b : ScanPlanInfo) : Fallible Bool :=
  match a.scan.searchRange, b.scan.searchRange with
  | some r, some s => r.startAfterEnd conv s
  | _, _ => .error .undefined

def startsBefore (a b : ScanPlanInfo) : Bool := a.compareStart conv b = .ok .lt

end ScanPlanInfo

/-- `std::sort`: a permutation in ascending order, for a comparison that is an order. -/
structure StdSort where
  sort : {α : Type} → (α → α → Bool) → List α → List α
  perm : ∀ {α : Type} (lt : α → α → Bool) (l : List α), (sort lt l).Perm l
  sorted : ∀ {α L : Type} [LinearOrder L] (lt : α → α → Bool) (l : List α) (f : α → L),
    (∀ a ∈ l, ∀ b ∈ l, lt a b = decide (f a < f b)) → (sort lt l).Pairwise (fun a b => f a ≤ f b)

def insertBy {α : Type} (lt : α → α → Bool) (a : α) : List α → List α
  | [] => [a]
  | b :: l => if lt b a then b :: insertBy lt a l else a :: b :: l

theorem insertBy_perm {α : Type} (lt : α → α → Bool) (a : α) (l : List α) : (insertBy lt a l).Perm (a :: l) := by
  induction l with
  | nil => exact .refl _
  | cons b l ih =>
    rw [insertBy]
    split
    · exact (ih.cons b).trans (.swap a b l)
    · exact .refl _

theorem insertBy_sorted {α L : Type} [LinearOrder L] (lt : α → α → Bool) (f : α → L) (a : α) (l : List α)
    (hlt : ∀ b ∈ l, lt b a = decide (f b < f a)) (h : l.Pairwise (fun a b => f a ≤ f b)) :
    (insertBy lt a l).Pairwise (fun a b => f a ≤ f b) := by
  induction l with
  | nil => exact List.pairwise_singleton _ _
  | cons b l ih =>
    rw [insertBy, hlt b (by simp)]
    split
    · next hba =>
      refine List.pairwise_cons.mpr ⟨fun c hc => ?_, ih (fun c hc => hlt c (by simp [hc])) h.of_cons⟩
      rcases List.mem_cons.mp ((insertBy_perm lt a l).mem_iff.mp hc) with rfl | hc
      · exact (of_decide_eq_true hba).le
      · exact (List.pairwise_cons.mp h).1 c hc
    · next hba =>
      have hle : f a ≤ f b := by simpa using hba
      refine List.pairwise_cons.mpr ⟨fun c hc => ?_, h⟩
      rcases List.mem_cons.mp hc with rfl | hc
      · exact hle
      · exact hle.trans ((List.pairwise_cons.mp h).1 c hc)

/-- What `std::sort` does on the few disjuncts of a query. -/
def insertionSort : StdSort where
  sort lt l := l.foldr (insertBy lt) []
  perm lt l := by
    induction l with
    | nil => exact .refl _
    | cons a l ih => exact (insertBy_perm lt a _).trans (ih.cons a)
  sorted lt l f h := by
    have hperm : ∀ l : List _, (l.foldr (insertBy lt) []).Perm l := by
      intro l
      induction l with
      | nil => exact .refl _
      | cons a l ih => exact (insertBy_perm lt a _).trans (ih.cons a)
    induction l with
    | nil => exact .nil
    | cons a l ih =>
      refine insertBy_sorted lt f a _ (fun b hb => ?_) (ih fun a ha b hb => h a (by simp [ha]) b (by simp [hb]))
      exact h b (by simp [(hperm l).mem_iff.mp hb]) a (by simp)

inductive SelectPlan
  | single (info : ScanPlanInfo)
  | unionAll (plans : List ScanPlanInfo)

variable (conv : Conversions)

/-- The loop over the disjuncts; nothing as soon as one of them needs a full scan. -/
def collectScans (t : TableInfo) : List ParseNode → Fallible (Option (List ScanPlanInfo))
  | [] => .ok (some [])
  | c :: cs => do
    let info ← ScanPlanInfo.create conv t c
    if info.isFullScan then return none
    let rest ← collectScans t cs
    return rest.map (info :: ·)

/-- Whether each range starts after the end of the one before it. -/
def checkNeighbours : List ScanPlanInfo → Fallible Bool
  | a :: b :: rest => do
    let after ← b.startAfterEnd conv a
    if after then checkNeighbours (b :: rest) else return false
  | _ => .ok true

def fullScan (t : TableInfo) (pPredicate : ParseNode) : Fallible SelectPlan := do
  let info ← ScanPlanInfo.create conv t pPredicate
  return .single info

def buildUnionAll (std : StdSort) (t : TableInfo) (pPredicate : ParseNode) : Fallible SelectPlan := do
  match ← collectScans conv t pPredicate.children with
  | none => fullScan conv t pPredicate
  | some infos =>
    let sorted := std.sort (ScanPlanInfo.startsBefore conv) infos
    if ← checkNeighbours conv sorted then return .unionAll sorted else fullScan conv t pPredicate

def buildSelectPlan (std : StdSort) (t : TableInfo) (pPredicate : ParseNode) : Fallible SelectPlan :=
  match pPredicate.getOp with
  | .or => buildUnionAll conv std t pPredicate
  | _ => fullScan conv t pPredicate

/-- `UnionAllPlan::next` over all its plans. -/
def runUnion (db : LevelDB) : List ScanPlanInfo → Run Entry
  | [] => .done
  | info :: infos => (info.run conv db).append (runUnion db infos)

def SelectPlan.run (db : LevelDB) : SelectPlan → Run Entry
  | single info => info.run conv db
  | unionAll plans => runUnion conv db plans

end LevelPgServer.LevelDBPlanBuilder
