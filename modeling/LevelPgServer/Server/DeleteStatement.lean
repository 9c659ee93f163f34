import LevelPgServer.PlanBuilder.DeletePlan
import LevelPgServer.Server.Atomicity

namespace LevelPgServer

open ParseNode QueryRewritter RewriteCorrect ExceptRules WriteBatch KeyOrder LevelDBPlanBuilder

variable {π δ τ : Type}

namespace Server

/-- An execution of a plan from `begin` to `end` during which nobody else writes, and the tag
that it reports. -/
def Completes (engine : Engine π δ τ) (db : δ) (p : π) (tag : Bytes) (db' : δ) : Prop :=
  ∃ raised raised' p1 q r r', engine.begin raised db p = .ok () p1 ∧ Iterates engine p1 q ∧
    engine.next raised' q = .ok false r ∧ engine.end (r, db) = .ok () (r', db') ∧ engine.getInfoString r' = tag

/-- A session whose statement has succeeded has gone through such an execution. -/
theorem Execution.completes {engine : Engine π δ τ} {snapshot : δ} {p : π} {s : Server π δ τ}
    (h : Execution engine snapshot p s) (hp : s.session.plan = none) : ∃ tag, Completes engine snapshot p tag s.db := by
  cases h with
  | started _ h => rw [hp] at h; cases h
  | running _ _ _ h => rw [hp] at h; cases h
  | finishing _ _ _ _ h => rw [hp] at h; cases h
  | failed _ h => rw [hp] at h; cases h
  | endFailed _ _ _ _ _ h => rw [hp] at h; cases h
  | done hb hi hn he => exact ⟨_, _, _, _, _, _, _, hb, hi, hn, he, rfl⟩

end Server

namespace LevelDBPlanBuilder

variable {conv : Conversions} {canceled : Option Nat → Cursor → Bool} {t : TableInfo}
    {run : Run (LevelDBScanPlan × Entry)}

/-- A DELETE that has collected the keys of some rows of its source. -/
structure Deleting (t : TableInfo) (run : Run (LevelDBScanPlan × Entry)) (d : LevelDBDeletePlan Cursor) : Prop where
  table : d.table = t
  rowkey : d.rowkeyProjection = some (t.values.length + t.getKeyCount)
  collected : ∃ done, run.rows = done ++ d.child.ahead.rows ∧ d.batch = done.map (fun r => r.2.1) ∧
    d.deleteRows = done.length
  fault : d.child.ahead.fault = run.fault

theorem readKey_eq {c : Cursor} {r : LevelDBScanPlan × Entry} (hc : c.current = some r) (hr : r.1.Scans t) :
    LevelDBDeletePlan.readKey conv (Cursor.source conv canceled) (some (t.values.length + t.getKeyCount)) c =
      .ok r.2.1 := by
  obtain ⟨scan, e⟩ := r
  have hget : (Cursor.source conv canceled).getResult c (t.values.length + t.getKeyCount) .bytes =
    .ok (.string e.1) := by
    simp only [Cursor.source, hc]
    exact getResult_rowkey hr e
  rw [LevelDBDeletePlan.readKey, hget]
  rfl

/-- What `begin` of a DELETE finds: the rows of its plan in the state of the database it reads. -/
theorem begin_deleting {plan : SelectPlan} (hp : plan.Scans t) (hne : plan.first ≠ none) (built begun : Database)
    (raised : Option Nat) : ∃ d', LevelDBDeletePlan.begin (Cursor.source conv canceled) raised begun
        { table := t, child := .create t built plan } = .ok () d' ∧
      Deleting t (plan.scanned conv ((plan.seen built begun).tables t.name)) d' := by
  obtain ⟨scan, hscan⟩ := Option.ne_none_iff_exists'.mp hne
  have hchild : (Cursor.create t built plan).plan = plan := by cases plan <;> rfl
  have hsnapshot : (Cursor.create t built plan).snapshot.getD (begun.tables scan.table.name) =
      (plan.seen built begun).tables t.name := by
    cases plan with
    | single info =>
      cases hscan
      rw [hp.table]
      rfl
    | unionAll plans => rfl
  let child : Cursor :=
    { Cursor.create t built plan with
      snapshot := some ((plan.seen built begun).tables t.name)
      ahead := plan.scanned conv ((plan.seen built begun).tables t.name)
      current := none }
  have hadd : (Cursor.source conv canceled).addProjection LevelDBDeletePlan.rowkeyNode (Cursor.create t built plan) =
      .ok (some (t.values.length + t.getKeyCount)) (Cursor.create t built plan) := by
    simp only [Cursor.source, hchild, hp.addProjection hne]
    cases plan <;> rfl
  have hbegin : (Cursor.source conv canceled).begin raised begun (Cursor.create t built plan) = .ok () child := by
    simp only [Cursor.source, hchild, hscan, hsnapshot, child]
  refine ⟨{ table := t, child, rowkeyProjection := some (t.values.length + t.getKeyCount) }, ?_, rfl, rfl, ?_, rfl⟩
  · rw [LevelDBDeletePlan.begin, LevelDBDeletePlan.onChild, hadd]
    simp only [LevelDBDeletePlan.onChild, hbegin]
  · exact ⟨[], rfl, rfl, rfl⟩

theorem Deleting.next_true (hs : ∀ r ∈ run.rows, r.1.Scans t) {d d' : LevelDBDeletePlan Cursor} (h : Deleting t run d)
    {raised : Option Nat} (hn : LevelDBDeletePlan.next conv (Cursor.source conv canceled) raised d = .ok true d') :
    Deleting t run d' := by
  obtain ⟨c, key, hc, hkey, rfl⟩ := LevelDBDeletePlan.next_true hn
  obtain ⟨r, hrows, hfault, hcurrent⟩ := Cursor.next_true hc
  obtain ⟨done, hdone, hbatch, hcount⟩ := h.collected
  have hr : r.1.Scans t := hs r (by rw [hdone, hrows]; simp)
  rw [h.rowkey, readKey_eq hcurrent hr] at hkey
  cases hkey
  refine ⟨h.table, h.rowkey, ⟨done ++ [r], ?_, ?_, ?_⟩, hfault.trans h.fault⟩
  · rw [hdone, hrows]
    simp
  · simp [hbatch]
  · simp [hcount]

/-- A DELETE goes on to the end of its source when its calls do not meet a cancellation. -/
theorem Deleting.next_ok (hcancel : ∀ c, canceled none c = false) (hs : ∀ r ∈ run.rows, r.1.Scans t)
    {d : LevelDBDeletePlan Cursor} (h : Deleting t run d) {r : LevelDBScanPlan × Entry}
    {rows : List (LevelDBScanPlan × Entry)} (hr : d.child.ahead.rows = r :: rows) :
    ∃ d', LevelDBDeletePlan.next conv (Cursor.source conv canceled) none d = .ok true d' ∧
      d'.child.ahead.rows = rows := by
  obtain ⟨done, hdone, -, -⟩ := h.collected
  have hscans : r.1.Scans t := hs r (by rw [hdone, hr]; simp)
  let child : Cursor := { d.child with ahead := ⟨rows, d.child.ahead.fault⟩, current := some r }
  have hnext : (Cursor.source conv canceled).next none d.child = .ok true child := by
    simp [Cursor.source, hcancel, hr, child]
  refine ⟨{ d with child, batch := d.batch ++ [r.2.1], deleteRows := d.deleteRows + 1 }, ?_, rfl⟩
  rw [LevelDBDeletePlan.next, LevelDBDeletePlan.onChild, hnext]
  simp only [h.rowkey]
  rw [readKey_eq (c := child) rfl hscans]

namespace RemovePlan

/-- A call on the plan of a DELETE that has something to do. -/
def onDelete {α : Type} (empty : α) (f : EStateM Fault (LevelDBDeletePlan Cursor) α) : EStateM Fault RemovePlan α
  | .empty => .ok empty .empty
  | .delete plan =>
    match f plan with
    | .ok a plan => .ok a (.delete plan)
    | .error e plan => .error e (.delete plan)

def «end» (conv : Conversions) (source : SourcePlan Cursor Database) : EStateM Fault (RemovePlan × Database) Unit
  | (.empty, db) => .ok () (.empty, db)
  | (.delete plan, db) =>
    match LevelDBDeletePlan.end conv source (plan, db) with
    | .ok _ (plan, db) => .ok () (.delete plan, db)
    | .error e (plan, db) => .error e (.delete plan, db)

def execution (conv : Conversions) (canceled : Option Nat → Cursor → Bool) : ExecutionPlan RemovePlan Database where
  «begin» raised db := onDelete () (LevelDBDeletePlan.begin (Cursor.source conv canceled) raised db)
  next raised := onDelete false (LevelDBDeletePlan.next conv (Cursor.source conv canceled) raised)
  «end» := «end» conv (Cursor.source conv canceled)
  getResultColumns _ := 0
  getProjectionName
    | .empty, _ => []
    | .delete plan, i => (LevelDBDeletePlan.execution conv (Cursor.source conv canceled)).getProjectionName plan i
  getResultType
    | .empty, _ => .error .undefined
    | .delete plan, i => (LevelDBDeletePlan.execution conv (Cursor.source conv canceled)).getResultType plan i
  getResult
    | .empty, _ => .ok .null
    | .delete plan, i => (LevelDBDeletePlan.execution conv (Cursor.source conv canceled)).getResult plan i
  getInfoString
    | .empty => bytes "SELECT 0"
    | .delete plan => (LevelDBDeletePlan.execution conv (Cursor.source conv canceled)).getInfoString plan

theorem onDelete_ok {α : Type} (empty : α) {a : α} {f : EStateM Fault (LevelDBDeletePlan Cursor) α}
    {d : LevelDBDeletePlan Cursor}
    {q : RemovePlan} (h : onDelete empty f (.delete d) = .ok a q) : ∃ d', f d = .ok a d' ∧ q = .delete d' := by
  rw [onDelete] at h
  split at h
  · next hf =>
    cases h
    exact ⟨_, hf, rfl⟩
  · cases h

variable {engine : Engine RemovePlan Database τ}

theorem iterates_deleting (he : engine.toExecutionPlan = execution conv canceled) (hs : ∀ r ∈ run.rows, r.1.Scans t)
    {d : LevelDBDeletePlan Cursor} (h : Deleting t run d) {q : RemovePlan} (hi : Server.Iterates engine (.delete d) q) :
    ∃ d', q = .delete d' ∧ Deleting t run d' := by
  induction hi with
  | refl => exact ⟨d, rfl, h⟩
  | step _ hn ih =>
    obtain ⟨d', rfl, h'⟩ := ih
    rw [he] at hn
    obtain ⟨d'', hnext, rfl⟩ := onDelete_ok false hn
    exact ⟨d'', rfl, h'.next_true hs hnext⟩

theorem iterates_end (he : engine.toExecutionPlan = execution conv canceled) (hcancel : ∀ c, canceled none c = false)
    (hs : ∀ r ∈ run.rows, r.1.Scans t) (rows : List (LevelDBScanPlan × Entry)) {p : RemovePlan}
    {d : LevelDBDeletePlan Cursor} (hi : Server.Iterates engine p (.delete d)) (h : Deleting t run d)
    (hr : d.child.ahead.rows = rows) :
    ∃ d', Server.Iterates engine p (.delete d') ∧ Deleting t run d' ∧ d'.child.ahead.rows = [] := by
  induction rows generalizing d with
  | nil => exact ⟨d, hi, h, hr⟩
  | cons r rows ih =>
    obtain ⟨d', hn, hr'⟩ := @Deleting.next_ok conv _ _ _ hcancel hs _ h _ _ hr
    refine ih (@Server.Iterates.step _ _ _ _ _ _ _ none hi ?_) (h.next_true hs hn) hr'
    rw [he]
    simp only [execution, onDelete, hn]

theorem exhausts_delete (he : engine.toExecutionPlan = execution conv canceled) {plan : SelectPlan} (hp : plan.Scans t)
    (hne : plan.first ≠ none) {built begun : Database} {raised raised' : Option Nat} {p q r : RemovePlan}
    (hb : engine.begin raised begun (.delete { table := t, child := .create t built plan }) = .ok () p)
    (hi : Server.Iterates engine p q) (hn : engine.next raised' q = .ok false r) :
    ∃ d, r = .delete d ∧ d.table = t ∧ (plan.run conv ((plan.seen built begun).tables t.name)).fault = none ∧
      d.batch = (plan.run conv ((plan.seen built begun).tables t.name)).rows.map Prod.fst ∧
        d.deleteRows = (plan.run conv ((plan.seen built begun).tables t.name)).rows.length := by
  have hs := hp.scanned conv ((plan.seen built begun).tables t.name)
  rw [he] at hb hn
  obtain ⟨d, hbegin, rfl⟩ := onDelete_ok () hb
  obtain ⟨d', hbegin', hd⟩ := @begin_deleting conv canceled _ _ hp hne built begun raised
  rw [hbegin] at hbegin'
  cases hbegin'
  obtain ⟨d1, rfl, hd1⟩ := iterates_deleting he hs hd hi
  obtain ⟨d2, hnext, rfl⟩ := onDelete_ok false hn
  obtain ⟨c, hc, rfl⟩ := LevelDBDeletePlan.next_false hnext
  obtain ⟨hrows, hfault⟩ := Cursor.next_false hc
  obtain ⟨done, hdone, hbatch, hcount⟩ := hd1.collected
  rw [hrows, List.append_nil] at hdone
  rw [← plan.scanned_eq]
  generalize plan.scanned conv ((plan.seen built begun).tables t.name) = run at *
  have hkeys : (run.map Prod.snd).rows = done.map Prod.snd := by rw [← hdone]; rfl
  refine ⟨_, rfl, hd1.table, hd1.fault.symm.trans hfault, ?_, ?_⟩
  · rw [hkeys, List.map_map]
    exact hbatch
  · rw [hkeys, List.length_map]
    exact hcount

/-- A DELETE that goes through to its end removes the keys of the rows of its source, and its
tag tells their number. -/
theorem ends_delete (he : engine.toExecutionPlan = execution conv canceled) {plan : SelectPlan} (hp : plan.Scans t)
    (hne : plan.first ≠ none) {built begun db db' : Database} {raised raised' : Option Nat} {p q r r' : RemovePlan}
    (hb : engine.begin raised begun (.delete { table := t, child := .create t built plan }) = .ok () p)
    (hi : Server.Iterates engine p q) (hn : engine.next raised' q = .ok false r)
    (hend : engine.end (r, db) = .ok () (r', db')) :
    (plan.run conv ((plan.seen built begun).tables t.name)).fault = none ∧
      db' = db.write conv t ((plan.run conv ((plan.seen built begun).tables t.name)).rows.map (fun e => .remove e.1)) ∧
        engine.getInfoString r' =
          bytes ("DELETE " ++ toString (plan.run conv ((plan.seen built begun).tables t.name)).rows.length) := by
  obtain ⟨d, rfl, htable, hf, hbatch, hcount⟩ := exhausts_delete he hp hne hb hi hn
  rw [he] at hend
  simp only [execution, «end»] at hend
  split at hend
  · next hx =>
    cases hend
    obtain ⟨hwrite, hrows⟩ := LevelDBDeletePlan.end_ok hx
    refine ⟨hf, ?_, ?_⟩
    · rw [hwrite, htable, hbatch, List.map_map]
      rfl
    · rw [he]
      change bytes ("DELETE " ++ toString (LevelDBDeletePlan.deleteRows _)) = _
      rw [hrows, hcount]
  · cases hend

theorem completes_delete (he : engine.toExecutionPlan = execution conv canceled) {plan : SelectPlan} (hp : plan.Scans t)
    (hne : plan.first ≠ none) {db db' : Database} {tag : Bytes}
    (h : Server.Completes engine db (.delete { table := t, child := .create t db plan }) tag db') :
    (plan.run conv (db.tables t.name)).fault = none ∧
      db' = db.write conv t ((plan.run conv (db.tables t.name)).rows.map (fun e => .remove e.1)) ∧
        tag = bytes ("DELETE " ++ toString (plan.run conv (db.tables t.name)).rows.length) := by
  obtain ⟨raised, raised', p1, q, r, r', hb, hi, hn, hend, rfl⟩ := h
  have hends := ends_delete he hp hne hb hi hn hend
  rwa [SelectPlan.seen_self] at hends

/-- A DELETE whose rows can be read succeeds when it is not cancelled and LevelDB writes. -/
theorem exists_completes (he : engine.toExecutionPlan = execution conv canceled)
    (hcancel : ∀ c, canceled none c = false)
    {plan : SelectPlan} (hp : plan.Scans t) (hne : plan.first ≠ none) {db : Database} (hdb : db.status = none)
    (hf : (plan.run conv (db.tables t.name)).fault = none) :
    ∃ tag db', Server.Completes engine db (.delete { table := t, child := .create t db plan }) tag db' := by
  have hs := hp.scanned conv (db.tables t.name)
  obtain ⟨d, hbegin, hd⟩ := @begin_deleting conv canceled _ _ hp hne db db none
  rw [SelectPlan.seen_self] at hd
  have hb : engine.begin none db (.delete { table := t, child := .create t db plan }) = .ok () (.delete d) := by
    rw [he]
    simp only [execution, onDelete, hbegin]
  obtain ⟨d', hi, hd', hrows⟩ := iterates_end he hcancel hs _ (.refl (RemovePlan.delete d)) hd rfl
  have hfault : d'.child.ahead.fault = none := by
    rw [hd'.fault, ← hf, ← plan.scanned_eq conv (db.tables t.name)]
    rfl
  let child : Cursor := { d'.child with current := none }
  have hchild : (Cursor.source conv canceled).next none d'.child = .ok false child := by
    simp [Cursor.source, hcancel, hrows, hfault, child]
  have hn : engine.next none (.delete d') = .ok false (.delete { d' with child }) := by
    rw [he]
    simp only [execution, onDelete, LevelDBDeletePlan.next, LevelDBDeletePlan.onChild, hchild]
  have hend : engine.end (.delete { d' with child }, db) =
      .ok () (.delete { d' with child := { child with snapshot := none } },
        db.write conv d'.table (d'.batch.map .remove)) := by
    rw [he]
    simp only [execution, «end», LevelDBDeletePlan.end, LevelDBDeletePlan.onChild, Cursor.source, Database.commit, hdb]
  exact ⟨_, _, none, none, _, _, _, _, hb, hi, hn, hend, rfl⟩

end RemovePlan

end LevelDBPlanBuilder

namespace IntConst

variable {p : ParseNode} {v : Int}

theorem isInt (h : IntConst p v) : p.type = .int := by cases h <;> rfl

theorem eq_zero (h : IntConst p v) (hp : p.getString = bytes "0") : v = 0 := by
  cases h with
  | number ds sx hne hsx =>
    rw [getString_node, hsx] at hp
    have hone : ds.length = 1 := (List.length_map _).symm.trans (congrArg List.length hp)
    obtain ⟨d, rfl⟩ := List.length_eq_one_iff.mp hone
    have hd : UInt8.ofNat (48 + d) = 48 := List.head_eq_of_cons_eq hp
    fin_cases d <;> first | rfl | exact absurd hd (by decide)
  | true sx =>
    rw [getString_node] at hp
    exact absurd hp (by decide)
  | false sx => rfl
  | minus sx h => exact absurd (List.head_eq_of_cons_eq hp) (by decide)

theorem rewrite_takes (h : IntConst p v) : Takes (rewrite p) p 0 := by
  cases h <;> exact rewrite_leaf (by decide) (by decide) _ _ _

end IntConst

inductive WhereClause (t : TableInfo)
  | absent
  | constant (p : ParseNode) (v : Int) (h : IntConst p v)
  | comparisons (p : ParseNode) (cs : List Comparison) (h : IsWhere t p cs) (texts : TextsDetermine cs)

namespace WhereClause

variable {t : TableInfo}

def node : WhereClause t → ParseNode
  | absent => .null
  | constant p _ _ => p
  | comparisons p _ _ _ => p

def satisfies (conv : Conversions) : WhereClause t → Entry → Bool
  | absent, _ => true
  | constant _ v _, _ => v != 0
  | comparisons p _ _ _, e => Satisfies conv t p e

/-- A constant of value zero that the planner takes for true although there are rows, or that
makes it plan an empty query. -/
def Misread (rows : LevelDB) : WhereClause t → Prop
  | constant p v _ => v = 0 ∧ (p.getString = bytes "0" ∨ rows ≠ [])
  | _ => False

/-- No constant is rounded in the key column that it is compared with. -/
def Unrounded (conv : Conversions) : WhereClause t → Prop
  | comparisons _ cs _ _ => ExactFloats conv t cs
  | _ => True

/-- The clause as the planner finds it after the rewriting. -/
def Rewritten (c : WhereClause t) (q : ParseNode) : Prop :=
  match c with
  | absent => q = .null
  | constant p _ _ => q = p
  | comparisons p cs _ _ => RewrittenWhere t p cs q

theorem rewrite_takes (c : WhereClause t) : ∃ q n, Takes (rewrite c.node) q n ∧ c.Rewritten q := by
  cases c with
  | absent => exact ⟨.null, 0, (BumpAlloc.Allocates.pure _).of_eq (by rw [node, rewrite]), rfl⟩
  | constant p v h => exact ⟨p, 0, h.rewrite_takes, rfl⟩
  | comparisons p cs h _ => exact h.rewrite_takes

end WhereClause

structure Clause (conv : Conversions) (t : TableInfo) where
  clause : WhereClause t
  unrounded : clause.Unrounded conv

def Clause.node {conv : Conversions} {t : TableInfo} (c : Clause conv t) : ParseNode := c.clause.node

def deleteNode (name : Bytes) (pWhere : ParseNode) : ParseNode :=
  .node .plan .remove [] (bytes "DeleteStmt") [.node .name .none name name [], pWhere]

variable {conv : Conversions} {canceled : Option Nat → Cursor → Bool} {t : TableInfo}

theorem deleteNode_takes (name : Bytes) {p q : ParseNode} {n : Nat} (h : Takes (rewrite p) q n) :
    ∃ m, Takes (rewrite (deleteNode name p)) (deleteNode name q) m := by
  have htable := @rewrite_leaf .name (by decide) (by decide) .none name name
  have hnil : Takes (rewriteChildren []) [] 0 := (BumpAlloc.Allocates.pure _).of_eq (by rw [rewriteChildren])
  have hcons : ∀ {a b : ParseNode} {as bs : List ParseNode} {i j : Nat}, Takes (rewrite a) b i →
      Takes (rewriteChildren as) bs j → Takes (rewriteChildren (a :: as)) (b :: bs) (i + (j + 0)) := by
    intro a b as bs i j ha has
    have htail : Takes (rewriteChildren as >>= fun cs => pure (b :: cs)) (b :: bs) (j + 0) :=
      has.bind (BumpAlloc.Allocates.pure _)
    have hall : Takes (rewrite a >>= fun c => rewriteChildren as >>= fun cs =>
      pure (c :: cs)) (b :: bs) (i + (j + 0)) :=
      ha.bind htail
    exact hall.of_eq (by rw [rewriteChildren])
  have hchildren := hcons htable (hcons h hnil)
  have hstatement : Takes (rewriteChildren [.node .name .none name name [], p] >>= fun cs =>
      pure (.node .plan .remove [] (bytes "DeleteStmt") cs)) (deleteNode name q) (0 + (n + (0 + 0) + 0) + 0) :=
    hchildren.bind (BumpAlloc.Allocates.pure _)
  exact ⟨_, hstatement.of_eq (by simp [deleteNode, rewrite])⟩

/-- Whenever the DELETE succeeds, the rows that satisfy the clause are gone, the others are
there, no other table is touched, and the tag tells how many rows were removed. -/
def RemovesExactly {τ : Type} (engine : Engine RemovePlan Database τ) (t : TableInfo) (db : Database)
    (plan : RemovePlan)
    (satisfies : Entry → Bool) : Prop :=
  ∀ tag db', Server.Completes engine db plan tag db' →
    db'.tables = Function.update db.tables t.name ((db.tables t.name).filter (fun e => !satisfies e)) ∧
      tag = bytes ("DELETE " ++ toString ((db.tables t.name).length - (db'.tables t.name).length))

section

variable {engine : Engine RemovePlan Database τ} (he : engine.toExecutionPlan = RemovePlan.execution conv canceled)
  (hv : t.Valid) {db : Database} (hs : Store conv t (db.tables t.name))

include he hv hs

theorem removesExactly_of_rows {plan : SelectPlan} (hp : plan.Scans t) (hne : plan.first ≠ none) {g : Entry → Bool}
    (hrun : (plan.run conv (db.tables t.name)).fault = none →
      (plan.run conv (db.tables t.name)).rows = (db.tables t.name).filter g) :
    RemovesExactly engine t db (.delete { table := t, child := .create t db plan }) g := by
  intro tag db' h
  obtain ⟨hf, rfl, rfl⟩ := RemovePlan.completes_delete he hp hne h
  have hrows := hrun hf
  have hmem : ∀ e, e ∈ (plan.run conv (db.tables t.name)).rows ↔ e ∈ db.tables t.name ∧ g e = true := by
    intro e
    rw [hrows, List.mem_filter]
  have hkept := hs.write_removes hv hmem
  refine ⟨?_, ?_⟩
  · rw [← hkept]
    simp [Database.write]
  · have hcount := (db.tables t.name).length_eq_length_filter_add g
    rw [hkept, hrows]
    congr 3
    omega

theorem fullScan_removes :
    RemovesExactly engine t db
      (.delete { table := t, child := .create t db (.single { scan := LevelDBScanPlan.create t }) })
        (fun _ => true) := by
  have hscans : SelectPlan.Scans t (.single { scan := LevelDBScanPlan.create t }) := LevelDBScanPlan.create_scans hv
  refine removesExactly_of_rows he hv hs hscans (by simp [SelectPlan.first]) fun _ => ?_
  rw [SelectPlan.run, ScanPlanInfo.run]
  dsimp only
  rw [LevelDBScanPlan.run_all hv (LevelDBScanPlan.create_scans hv) rfl hs]
  simp

end

theorem buildDeletePlan_ok {std : StdSort} {getTableInfo : Bytes → Option TableInfo} {name : Bytes}
    (ht : getTableInfo name = some t) {db : Database} {p : ParseNode} (hp : p.isFalseConst = false) {plan : RemovePlan}
    (h : buildDeletePlan conv std getTableInfo db (deleteNode name p) = .ok plan) :
    ∃ select, buildSelectPlan conv std t (if p.isTrueConst then .null else p) = .ok select ∧
      plan = .delete { table := t, child := .create t db select } ∧
        ∀ db', buildDeletePlan conv std getTableInfo db' (deleteNode name p) =
          .ok (.delete { table := t, child := .create t db' select }) := by
  have hbuild : ∀ db', buildDeletePlan conv std getTableInfo db' (deleteNode name p) =
      if t.getKeyCount = 0 then throwParse ("DELETE is not supported for table " ++ text name)
      else buildSelectPlan conv std t (if p.isTrueConst then .null else p) >>= fun select =>
        .ok (.delete { table := t, child := .create t db' select }) := by
    intro db'
    rw [buildDeletePlan, show (deleteNode name p).getChild 0 = .node .name .none name name [] from rfl,
      show (deleteNode name p).getChild 1 = p from rfl]
    dsimp only
    rw [hp, if_neg (by decide), getString_node, ht]
    rfl
  rw [hbuild] at h
  split at h
  · cases h
  · next hkeys =>
    obtain ⟨select, hselect, h⟩ := bind_eq_ok.mp h
    cases h
    refine ⟨select, hselect, rfl, fun db' => ?_⟩
    rw [hbuild, if_neg hkeys, hselect, ok_bind]

theorem not_constant_of_where {p : ParseNode} {cs : List Comparison} (h : IsWhere t p cs) {q : ParseNode}
    (hq : RewrittenWhere t p cs q) : q.isFalseConst = false ∧ q.isTrueConst = false := by
  have hop : q.type = .op := by
    cases hq with
    | conjunction => cases h <;> rfl
    | disjunction => rfl
  simp [isFalseConst, isTrueConst, hop]

/-- A DELETE whose constants are not rounded removes exactly the rows that satisfy its clause and tells their number,
except for the constants of value zero: those spelled `0` or FALSE report a SELECT, and any others remove every row. -/
theorem removesExactly_iff (conv : Conversions) (std : StdSort) (canceled : Option Nat → Cursor → Bool)
    (hcancel : ∀ c, canceled none c = false) (t : TableInfo) (hv : t.Valid) (getTableInfo : Bytes → Option TableInfo)
    (name : Bytes) (ht : getTableInfo name = some t) (clause : WhereClause t) (used used' : Nat)
    (hused : used ≤ blockSize)
    (q : ParseNode) (hq : rewrite (deleteNode name clause.node) used = .ok q used') (db : Database)
    (hs : Store conv t (db.tables t.name)) (hdb : db.status = none)
    (hd : NoneDoubled conv std t (q.getChild 1) (db.tables t.name)) (plan : RemovePlan)
    (hplan : buildDeletePlan conv std getTableInfo db q = .ok plan) (τ : Type) (engine : Engine RemovePlan Database τ)
    (he : engine.toExecutionPlan = RemovePlan.execution conv canceled) (hexact : clause.Unrounded conv) :
    RemovesExactly engine t db plan (clause.satisfies conv) ↔ ¬ clause.Misread (db.tables t.name) := by
  obtain ⟨p, n, hn, hp⟩ := clause.rewrite_takes
  obtain ⟨m, hm⟩ := deleteNode_takes name hn
  obtain ⟨rfl, -⟩ := hm.unique hused hq
  have hnull : buildSelectPlan conv std t .null = .ok (.single { scan := LevelDBScanPlan.create t }) := rfl
  have hscans : SelectPlan.Scans t (.single { scan := LevelDBScanPlan.create t }) := LevelDBScanPlan.create_scans hv
  have hrun : SelectPlan.run conv (db.tables t.name) (.single { scan := LevelDBScanPlan.create t }) =
      ⟨db.tables t.name, none⟩ := LevelDBScanPlan.run_all hv (LevelDBScanPlan.create_scans hv) rfl hs
  cases clause with
  | absent =>
    obtain rfl : p = .null := hp
    obtain ⟨select, hselect, rfl, -⟩ := buildDeletePlan_ok ht rfl hplan
    obtain rfl := Except.ok.inj (hselect.symm.trans hnull)
    exact iff_of_true (fullScan_removes he hv hs) id
  | constant p' v h =>
    obtain rfl : p = p' := hp
    by_cases htext : p.getString = bytes "0"
    · have hfalse : p.isFalseConst = true := by simp [isFalseConst, h.isInt, htext]
      have hempty : plan = .empty := by
        rw [buildDeletePlan, show (deleteNode name p).getChild 1 = p from rfl, if_pos hfalse] at hplan
        exact (Except.ok.inj hplan).symm
      subst hempty
      refine iff_of_false (fun hremoves => ?_) (not_not_intro ⟨h.eq_zero htext, .inl htext⟩)
      have hcompletes : Server.Completes engine db .empty (bytes "SELECT 0") db :=
        ⟨none, none, .empty, .empty, .empty, .empty, by rw [he]; rfl, .refl _, by rw [he]; rfl, by rw [he]; rfl,
          by rw [he]; rfl⟩
      obtain ⟨-, htag⟩ := hremoves _ _ hcompletes
      have hhead := congrArg List.head? htag
      rw [bytes, bytes, String.toList_append, List.map_append] at hhead
      have hbytes : (83 : UInt8) = 68 := Option.some.inj hhead
      exact absurd hbytes (by decide)
    · have hfalse : p.isFalseConst = false := by simp [isFalseConst, h.isInt, htext]
      have htrue : p.isTrueConst = true := by simp [isTrueConst, h.isInt, htext]
      obtain ⟨select, hselect, rfl, -⟩ := buildDeletePlan_ok ht hfalse hplan
      rw [htrue, if_pos rfl] at hselect
      obtain rfl := Except.ok.inj (hselect.symm.trans hnull)
      have hall := fullScan_removes he hv hs
      by_cases hzero : v = 0
      · subst hzero
        by_cases hrows : db.tables t.name = []
        · refine iff_of_true (fun tag db' hc => ?_) fun hm => hm.2.elim htext fun hne => hne hrows
          obtain ⟨htables, htag⟩ := hall tag db' hc
          rw [hrows] at htables htag ⊢
          exact ⟨htables, htag⟩
        · refine iff_of_false (fun hremoves => ?_) (not_not_intro ⟨rfl, .inr hrows⟩)
          obtain ⟨tag, db', hc⟩ := RemovePlan.exists_completes he hcancel hscans (by simp [SelectPlan.first]) hdb
            (by rw [hrun])
          have hkept := congrFun (hremoves tag db' hc).1 t.name
          have hgone := congrFun (hall tag db' hc).1 t.name
          rw [Function.update_self] at hkept hgone
          rw [hgone] at hkept
          exact hrows (by simpa [WhereClause.satisfies] using hkept.symm)
      · have hsat : (WhereClause.constant p v h : WhereClause t).satisfies conv = fun _ => true := by
          funext e
          exact bne_iff_ne.mpr hzero
        rw [hsat]
        exact iff_of_true hall fun hm => hzero hm.1
  | comparisons p' cs h htext =>
    obtain ⟨hfalse, htrue⟩ := not_constant_of_where h hp
    obtain ⟨select, hselect, rfl, -⟩ := buildDeletePlan_ok ht hfalse hplan
    rw [htrue, if_neg (by decide)] at hselect
    obtain ⟨hsel, hne⟩ := where_scans hp htext hexact hv hselect
    refine iff_of_true (removesExactly_of_rows he hv hs hsel hne fun hf => ?_) id
    exact (where_run hp htext hexact hv hselect hs hf).2 hd

open LevelDBPlanBuilder (rowE rowE_store)
open LevelDBPlanBuilder.ScanPlanInfo (nameTable nameTable_valid nameTable_exactFloats nameNode nameComparison)

def tableT (name : Bytes) : Option TableInfo := if name = bytes "t" then some nameTable else none

def databaseE : Database := { tables := fun _ => rowE }

def removing : Engine RemovePlan Database Unit :=
  Server.executing (RemovePlan.execution decimalConversions fun _ _ => false) .empty

def nameIsE : WhereClause nameTable :=
  .comparisons (nameNode .compEq (bytes "a='e'") (bytes "e")) [nameComparison .compEq (bytes "a='e'") (bytes "e")]
    (.comparison (nameComparison .compEq (bytes "a='e'") (bytes "e")) rfl
      (.left (c := { name := bytes "a", type := .string, keyIndex := some 0 }) ⟨rfl, rfl, rfl⟩ rfl) rfl rfl)
    (fun _ ha _ hb _ => (List.mem_singleton.mp ha).trans (List.mem_singleton.mp hb).symm)

theorem nameIsE_rewrite : rewrite (deleteNode (bytes "t") nameIsE.node) 0 =
    .ok (deleteNode (bytes "t") nameIsE.node) 0 := by
  simp [deleteNode, rewrite, rewriteChildren, rewriteOp, nameIsE, WhereClause.node, nameNode, bind, EStateM.bind,
    pure, EStateM.pure]

def twoZeros : ParseNode := .node .int .none (bytes "00") (bytes "00") []

end LevelPgServer
