import LevelPgServer.Lib.SnapshotWriters
import LevelPgServer.Server.DeleteStatement

namespace LevelPgServer

open ParseNode QueryRewritter RewriteCorrect ExceptRules WriteBatch KeyOrder LevelDBPlanBuilder SnapshotWriters

variable {π π' σ τ τ' : Type} {conv : Conversions} {t : TableInfo}

namespace Server

/-- A plan built at `x` and begun at `y` can be called up to its end, which leaves `r`. -/
def Exhausts (engine : Engine π Database τ) (build : Database → Fallible π) (x y : Database) (r : π) : Prop :=
  ∃ raised raised' p p1 q, build x = .ok p ∧ engine.begin raised y p = .ok () p1 ∧ Iterates engine p1 q ∧
    engine.next raised' q = .ok false r

end Server

/-- A statement that writes to one table: how its plan is built, and the operations that a plan
at its end applies. -/
structure WriteStatement (conv : Conversions) (t : TableInfo) (π τ : Type) where
  engine : Engine π Database τ
  build : Database → Fallible π
  batch : π → List BatchOp
  end_ok : ∀ {x y db db' r r'}, Server.Exhausts engine build x y r → engine.end (r, db) = .ok () (r', db') →
    db' = db.write conv t (batch r)
  end_error : ∀ {db db' r r' f}, engine.end (r, db) = .error f (r', db') → db' = db
  end_again : ∀ {db db' r r'}, engine.end (r, db) = .ok () (r', db') → ∀ found : Database, found.status = none →
    ∃ r' found', engine.end (r, found) = .ok () (r', found')

/-- Where a session is with its statement; what the plan has seen of the database when it was
built, when it began and when it committed stays on record. -/
inductive Stage (π : Type)
  | waiting
  | built (x : Database) (plan : π)
  | running (x y : Database) (plan : π)
  | exhausted (x y : Database) (plan : π)
  | committed (x y found : Database) (ops : List BatchOp)
  | failed

namespace Stage

def isCommitted : Stage π → Bool
  | committed _ _ _ _ => true
  | _ => false

theorem isCommitted_iff {s : Stage π} : s.isCommitted = true ↔ ∃ x y found ops, s = .committed x y found ops := by
  cases s <;> simp [isCommitted]

end Stage

namespace WriteStatement

/-- The operations that the statement commits when its plan is built at `x` and begins at `y`. -/
def Collects (S : WriteStatement conv t π τ) (x y : Database) (ops : List BatchOp) : Prop :=
  ∃ r, Server.Exhausts S.engine S.build x y r ∧ ops = S.batch r ∧ ∃ db r' db', S.engine.end (r, db) = .ok () (r', db')

def Alone (S : WriteStatement conv t π τ) (db db' : Database) : Prop :=
  ∃ p tag, S.build db = .ok p ∧ Server.Completes S.engine db p tag db'

def step (S : WriteStatement conv t π τ) (raised : Option Nat) (db : Database) : Stage π → Stage π × Database
  | .waiting =>
    match S.build db with
    | .ok p => (.built db p, db)
    | .error _ => (.failed, db)
  | .built x p =>
    match S.engine.begin raised db p with
    | .ok _ p => (.running x db p, db)
    | .error _ _ => (.failed, db)
  | .running x y p =>
    match S.engine.next raised p with
    | .ok true p => (.running x y p, db)
    | .ok false p => (.exhausted x y p, db)
    | .error _ _ => (.failed, db)
  | .exhausted x y p =>
    match S.engine.end (p, db) with
    | .ok _ (_, db') => (.committed x y db (S.batch p), db')
    | .error _ (_, db') => (.failed, db')
  | .committed x y found ops => (.committed x y found ops, db)
  | .failed => (.failed, db)

variable (S : WriteStatement conv t π τ)

/-- The phase that a stage stands for; a statement that has failed is one that never commits. -/
inductive Follows : Stage π → Phase Database (List BatchOp) → Prop
  | waiting : Follows .waiting .idle
  | built {x : Database} {p : π} (h : S.build x = .ok p) : Follows (.built x p) (.prepared x)
  | running {x y : Database} {raised : Option Nat} {p p1 q : π} (h : S.build x = .ok p)
      (hb : S.engine.begin raised y p = .ok () p1) (hi : Server.Iterates S.engine p1 q) :
      Follows (.running x y q) (.reading x y)
  | exhausted {x y : Database} {r : π} (h : Server.Exhausts S.engine S.build x y r) :
      Follows (.exhausted x y r) (.reading x y)
  | committed {x y found : Database} {ops : List BatchOp} : Follows (.committed x y found ops) (.done x y found ops)
  | failed {p : Phase Database (List BatchOp)} (h : p.Open fun _ => True) : Follows .failed p

variable {S}

theorem Follows.step {stage : Stage π} {phase : Phase Database (List BatchOp)} (h : S.Follows stage phase)
    (raised : Option Nat) (db : Database) :
    ((S.step raised db stage).2 = db ∧ S.Follows (S.step raised db stage).1 phase) ∨
      ∃ phase', Advance (fun ops db => db.write conv t ops) S.Collects db phase phase' (S.step raised db stage).2 ∧
        S.Follows (S.step raised db stage).1 phase' := by
  cases h with
  | waiting =>
    rw [WriteStatement.step]
    cases hp : S.build db with
    | ok p => exact .inr ⟨_, .prepare, .built hp⟩
    | error f => exact .inl ⟨rfl, .failed trivial⟩
  | @built x p h =>
    rw [WriteStatement.step]
    cases hb : S.engine.begin raised db p with
    | ok a q => exact .inr ⟨_, .start, .running h hb (.refl q)⟩
    | error f q => exact .inl ⟨rfl, .failed trivial⟩
  | @running x y raised' p p1 q h hb hi =>
    rw [WriteStatement.step]
    cases hn : S.engine.next raised q with
    | ok more r =>
      cases more with
      | true => exact .inl ⟨rfl, .running h hb (.step hi hn)⟩
      | false => exact .inl ⟨rfl, .exhausted ⟨_, _, _, _, _, h, hb, hi, hn⟩⟩
    | error f r => exact .inl ⟨rfl, .failed ⟨trivial, trivial⟩⟩
  | @exhausted x y r h =>
    rw [WriteStatement.step]
    cases he : S.engine.end (r, db) with
    | ok a s =>
      obtain ⟨r', db'⟩ := s
      refine .inr ⟨_, ?_, .committed⟩
      dsimp only
      rw [S.end_ok h he]
      exact .commit ⟨r, h, rfl, db, r', db', he⟩
    | error f s =>
      obtain ⟨r', db'⟩ := s
      exact .inl ⟨S.end_error he, .failed ⟨trivial, trivial⟩⟩
  | committed => exact .inl ⟨rfl, .committed⟩
  | failed h => exact .inl ⟨rfl, .failed h⟩

/-- What a statement collects when it finds the same database twice, it writes when it runs
alone. -/
theorem Collects.alone {db : Database} {ops : List BatchOp} (h : S.Collects db db ops) (hdb : db.status = none) :
    S.Alone db (db.write conv t ops) := by
  obtain ⟨r, hr, rfl, db1, r1, db1', he⟩ := h
  obtain ⟨r', db', he'⟩ := S.end_again he db hdb
  have hwrite := S.end_ok hr he'
  subst hwrite
  obtain ⟨raised, raised', p, p1, q, hp, hb, hi, hn⟩ := hr
  exact ⟨p, _, hp, raised, raised', p1, q, r, r', hb, hi, hn, he', rfl⟩

theorem Alone.collects {db db' : Database} (h : S.Alone db db') : ∃ ops, S.Collects db db ops ∧ db' = db.write conv t ops := by
  obtain ⟨p, tag, hp, raised, raised', p1, q, r, r', hb, hi, hn, he, -⟩ := h
  have hr : Server.Exhausts S.engine S.build db db r := ⟨raised, raised', p, p1, q, hp, hb, hi, hn⟩
  exact ⟨S.batch r, ⟨r, hr, rfl, db, r', db', he⟩, S.end_ok hr he⟩

end WriteStatement

structure Sessions (π π' : Type) where
  insert : Stage π
  delete : Stage π'
  db : Database

inductive Turn
  | insert (raised : Option Nat)
  | delete (raised : Option Nat)

namespace Sessions

variable (I : WriteStatement conv t π τ) (D : WriteStatement conv t π' τ')

def step (s : Sessions π π') : Turn → Sessions π π'
  | .insert raised => { s with insert := (I.step raised s.db s.insert).1, db := (I.step raised s.db s.insert).2 }
  | .delete raised => { s with delete := (D.step raised s.db s.delete).1, db := (D.step raised s.db s.delete).2 }

def run (s : Sessions π π') (turns : List Turn) : Sessions π π' := turns.foldl (step I D) s

def start (db : Database) : Sessions π π' := ⟨.waiting, .waiting, db⟩

/-- The contents that the two statements leave when one runs after the other. -/
def Serial (db final : Database) : Prop :=
  ∃ mid, (I.Alone db mid ∧ D.Alone mid final) ∨ (D.Alone db mid ∧ I.Alone mid final)

variable {I D}

theorem run_follows (db : Database) (turns : List Turn) : ∃ l r, I.Follows ((start db).run I D turns).insert l ∧
    D.Follows ((start db).run I D turns).delete r ∧
      Relation.ReflTransGen (Step (fun ops db => db.write conv t ops) I.Collects D.Collects) ⟨.idle, .idle, db⟩
        ⟨l, r, ((start db).run I D turns).db⟩ := by
  induction turns using List.reverseRecOn with
  | nil => exact ⟨.idle, .idle, .waiting, .waiting, .refl⟩
  | append_singleton turns turn ih =>
    obtain ⟨l, r, hl, hr, hrun⟩ := ih
    rw [run, List.foldl_append]
    rw [run] at hl hr hrun
    generalize turns.foldl (step I D) (start db) = s at hl hr hrun
    cases turn with
    | insert raised =>
      obtain ⟨hdb, hl'⟩ | ⟨l', ha, hl'⟩ := hl.step raised s.db
      · refine ⟨l, r, hl', hr, ?_⟩
        rw [← hdb] at hrun
        exact hrun
      · exact ⟨l', r, hl', hr, hrun.tail (.left ha)⟩
    | delete raised =>
      obtain ⟨hdb, hr'⟩ | ⟨r', ha, hr'⟩ := hr.step raised s.db
      · refine ⟨l, r, hl, hr', ?_⟩
        rw [← hdb] at hrun
        exact hrun
      · exact ⟨l, r', hl, hr', hrun.tail (.right ha)⟩

/-- When both statements have committed, their batches were applied one after the other, and
what either has seen of the database is what was there before or after the other's commit. -/
structure Committed (I : WriteStatement conv t π τ) (D : WriteStatement conv t π' τ') (db xi yi fi xd yd fd final : Database)
    (is ds : List BatchOp) : Prop where
  insert : I.Collects xi yi is
  delete : D.Collects xd yd ds
  order : (fi = db ∧ fd = db.write conv t is ∧ final = (db.write conv t is).write conv t ds) ∨
    (fd = db ∧ fi = db.write conv t ds ∧ final = (db.write conv t ds).write conv t is)
  insert_sees : (xi = db ∨ xi = fi) ∧ (yi = db ∨ yi = fi)
  delete_sees : (xd = db ∨ xd = fd) ∧ (yd = db ∨ yd = fd)

theorem run_committed {db xi yi fi xd yd fd final : Database} {is ds : List BatchOp} {turns : List Turn}
    (h : (start db).run I D turns = ⟨.committed xi yi fi is, .committed xd yd fd ds, final⟩) :
    Committed I D db xi yi fi xd yd fd final is ds := by
  obtain ⟨l, r, hl, hr, hrun⟩ := run_follows (I := I) (D := D) db turns
  rw [h] at hl hr hrun
  cases hl
  cases hr
  cases Since.run hrun with
  | none hopen => exact absurd hopen id
  | left _ hopen => exact absurd hopen id
  | right _ hopen => exact absurd hopen id
  | leftFirst ha hb hx hy => exact ⟨ha, hb, .inl ⟨rfl, rfl, rfl⟩, ⟨.inl rfl, .inl rfl⟩, ⟨hx, hy⟩⟩
  | rightFirst hb ha hx hy => exact ⟨ha, hb, .inr ⟨rfl, rfl, rfl⟩, ⟨hx, hy⟩, ⟨.inl rfl, .inl rfl⟩⟩

end Sessions

namespace LevelDBInsertPlan

variable {source : SourcePlan σ Database} {engine : Engine (InsertStatement σ) Database τ}
  {build : Database → Fallible (InsertStatement σ)}

theorem exhausts (hv : t.Valid) (he : engine.toExecutionPlan = execution conv source)
    (hbuild : ∀ x p, build x = .ok p → Of t [] p) {x y : Database} {r : InsertStatement σ}
    (h : Server.Exhausts engine build x y r) : ∃ p rows es, build x = .ok p ∧
      source.Rows (source.readRow t) y p.child rows ∧
        List.Forall₂ (fun row e => (create t).entryOf conv row = .ok e) rows es ∧ Of t es r := by
  obtain ⟨raised, raised', p, p1, q, hp, hb, hi, hn⟩ := h
  rw [he] at hb hn
  obtain ⟨c, hbegin, rfl⟩ := beginStatement_ok hb
  have hof := hbuild x p hp
  obtain ⟨rows, es, hd, hf, ho⟩ := Of.iterates hv he
    (⟨hof.plan, hof.keys, hof.values, hof.batch⟩ : Of t [] { p with state := { p.state with insertRows := 0 }, child := c }) hi
  obtain ⟨c', hnext, rfl⟩ := nextStatement_false hn
  exact ⟨p, rows, es, hp, ⟨_, _, _, _, _, hbegin, hd, hnext⟩, hf, ho.plan, ho.keys, ho.values, ho.batch⟩

/-- An INSERT into table `t`, whose plan is new every time it is built. -/
def statement (hv : t.Valid) (he : engine.toExecutionPlan = execution conv source)
    (hbuild : ∀ x p, build x = .ok p → Of t [] p) : WriteStatement conv t (InsertStatement σ) τ where
  engine := engine
  build := build
  batch := batch
  end_ok := by
    intro x y db db' r r' hx hend
    obtain ⟨_, _, _, _, _, _, ho⟩ := exhausts hv he hbuild hx
    rw [he] at hend
    rw [endStatement_ok hend, ho.plan]
    rfl
  end_error := by
    intro db db' r r' f hend
    rw [he] at hend
    exact endStatement_error hend
  end_again := by
    intro db db' r r' hend found hfound
    rw [he] at hend ⊢
    simp only [execution, endStatement] at hend ⊢
    split at hend
    · cases hend
    · simp [Database.commit, hfound]

end LevelDBInsertPlan

/-- What the planner takes the clause for: a constant is true unless it is spelled `0` or
FALSE. -/
def WhereClause.reads (conv : Conversions) : WhereClause t → Entry → Bool
  | absent, _ => true
  | constant p _ _, _ => p.getString != bytes "0"
  | comparisons p _ _ _, e => Satisfies conv t p e

namespace Clause

def reads (c : Clause conv t) : Entry → Bool := c.clause.reads conv

variable {std : StdSort} {getTableInfo : Bytes → Option TableInfo} {name : Bytes} {clause : Clause conv t} {q : ParseNode}
  {used used' : Nat}

/-- The same plan is built whenever the DELETE is built: one without rows, or one that scans the
table for the rows that the clause is taken to hold of. -/
theorem buildDeletePlan_reads (hv : t.Valid) (hused : used ≤ blockSize)
    (hq : rewrite (deleteNode name clause.node) used = .ok q used') (ht : getTableInfo name = some t) {x : Database}
    {plan : RemovePlan} (h : buildDeletePlan conv std getTableInfo x q = .ok plan) :
    (plan = .empty ∧ (∀ e, clause.reads e = false) ∧ ∀ y, buildDeletePlan conv std getTableInfo y q = .ok .empty) ∨
      ∃ select, plan = .delete { table := t, child := .create t x select } ∧
        (∀ y, buildDeletePlan conv std getTableInfo y q = .ok (.delete { table := t, child := .create t y select })) ∧
          select.Scans t ∧ select.first ≠ none ∧ ∀ rows, Store conv t rows → (select.run conv rows).fault = none →
            ∀ e, e ∈ (select.run conv rows).rows ↔ e ∈ rows ∧ clause.reads e = true := by
  obtain ⟨clause, hexact⟩ := clause
  obtain ⟨p, n, hn, hp⟩ := clause.rewrite_takes
  obtain ⟨m, hm⟩ := deleteNode_takes name hn
  obtain ⟨rfl, -⟩ := hm.unique hused hq
  have hscan : ∀ {select : SelectPlan}, buildSelectPlan conv std t .null = .ok select → select.Scans t ∧ select.first ≠ none ∧
      ∀ rows, Store conv t rows → (select.run conv rows).fault = none →
        ∀ e, e ∈ (select.run conv rows).rows ↔ e ∈ rows ∧ true = true := by
    intro select hselect
    obtain rfl : (.single { scan := LevelDBScanPlan.create t }) = select := Except.ok.inj hselect
    refine ⟨LevelDBScanPlan.create_scans hv, by simp [SelectPlan.first], fun rows hs _ e => ?_⟩
    have hrun : SelectPlan.run conv rows (.single { scan := LevelDBScanPlan.create t }) = ⟨rows, none⟩ :=
      LevelDBScanPlan.run_all hv (LevelDBScanPlan.create_scans hv) rfl hs
    simp [hrun]
  cases clause with
  | absent =>
    obtain rfl : p = .null := hp
    obtain ⟨select, hselect, rfl, hall⟩ := buildDeletePlan_ok ht rfl h
    exact .inr ⟨select, rfl, hall, hscan hselect⟩
  | constant p' v hconst =>
    obtain rfl : p = p' := hp
    by_cases htext : p.getString = bytes "0"
    · have hfalse : p.isFalseConst = true := by simp [isFalseConst, hconst.isInt, htext]
      have hempty : ∀ y, buildDeletePlan conv std getTableInfo y (deleteNode name p) = .ok .empty := by
        intro y
        rw [buildDeletePlan, show (deleteNode name p).getChild 1 = p from rfl, if_pos hfalse]
      rw [hempty] at h
      exact .inl ⟨(Except.ok.inj h).symm, fun e => by simp [reads, WhereClause.reads, htext], hempty⟩
    · have hfalse : p.isFalseConst = false := by simp [isFalseConst, hconst.isInt, htext]
      have htrue : p.isTrueConst = true := by simp [isTrueConst, hconst.isInt, htext]
      have hreads : (⟨.constant p v hconst, hexact⟩ : Clause conv t).reads = fun _ => true := by
        funext e
        exact bne_iff_ne.mpr htext
      obtain ⟨select, hselect, rfl, hall⟩ := buildDeletePlan_ok ht hfalse h
      rw [htrue, if_pos rfl] at hselect
      rw [hreads]
      exact .inr ⟨select, rfl, hall, hscan hselect⟩
  | comparisons p' cs hwhere htext =>
    obtain ⟨hfalse, htrue⟩ := not_constant_of_where hwhere hp
    obtain ⟨select, hselect, rfl, hall⟩ := buildDeletePlan_ok ht hfalse h
    rw [htrue, if_neg (by decide)] at hselect
    obtain ⟨hsel, hne⟩ := where_scans hp htext hexact hv hselect
    exact .inr ⟨select, rfl, hall, hsel, hne, fun rows hs hf => (where_run hp htext hexact hv hselect hs hf).1⟩

end Clause

namespace LevelDBPlanBuilder.RemovePlan

variable {canceled : Option Nat → Cursor → Bool} {engine : Engine RemovePlan Database τ}

def batch : RemovePlan → List BatchOp
  | .empty => []
  | .delete d => d.batch.map .remove

theorem end_error (he : engine.toExecutionPlan = execution conv canceled) {db db' : Database} {r r' : RemovePlan}
    {f : Fault} (h : engine.end (r, db) = .error f (r', db')) : db' = db := by
  rw [he] at h
  cases r with
  | empty => cases h
  | delete d =>
    simp only [execution, «end»] at h
    split at h
    · cases h
    · next hx =>
      cases h
      exact LevelDBDeletePlan.end_error hx

theorem end_again (he : engine.toExecutionPlan = execution conv canceled) {db db' : Database} {r r' : RemovePlan}
    (h : engine.end (r, db) = .ok () (r', db')) {found : Database} (hfound : found.status = none) :
    ∃ r' found', engine.end (r, found) = .ok () (r', found') := by
  rw [he] at h ⊢
  cases r with
  | empty => exact ⟨_, _, rfl⟩
  | delete d => simp [execution, «end», LevelDBDeletePlan.end, LevelDBDeletePlan.onChild, Cursor.source, Database.commit, hfound]

/-- The plan of a DELETE begins in the same state of the database however its iterators come to
see it. -/
theorem begin_seen (he : engine.toExecutionPlan = execution conv canceled) {select : SelectPlan} (hs : select.Scans t)
    (hne : select.first ≠ none) (built begun : Database) (raised : Option Nat) :
    engine.begin raised begun (.delete { table := t, child := .create t built select }) =
      engine.begin raised (select.seen built begun)
        (.delete { table := t, child := .create t (select.seen built begun) select }) := by
  cases select with
  | single info => rfl
  | unionAll plans =>
    rw [he]
    simp only [execution, onDelete, LevelDBDeletePlan.begin, LevelDBDeletePlan.onChild, Cursor.source, Cursor.create,
      SelectPlan.seen, hs.addProjection hne]
    cases SelectPlan.first (.unionAll plans) <;> rfl

theorem iterates_empty (he : engine.toExecutionPlan = execution conv canceled) {q : RemovePlan}
    (h : Server.Iterates engine .empty q) : q = .empty := by
  induction h with
  | refl => rfl
  | step _ hn ih =>
    subst ih
    rw [he] at hn
    cases hn

section

variable {std : StdSort} {getTableInfo : Bytes → Option TableInfo} {name : Bytes} {clause : Clause conv t} {q : ParseNode}
  {used used' : Nat}

/-- At its end the plan of a DELETE holds the keys of the rows that the clause is taken to hold
of, in one of the two states it has seen, and it might as well have seen only this one. -/
theorem exhausts_reads (he : engine.toExecutionPlan = execution conv canceled) (hv : t.Valid) (hused : used ≤ blockSize)
    (hq : rewrite (deleteNode name clause.node) used = .ok q used') (ht : getTableInfo name = some t) {x y : Database}
    {r : RemovePlan} (h : Server.Exhausts engine (fun x => buildDeletePlan conv std getTableInfo x q) x y r) :
    (∀ d, r = .delete d → d.table = t) ∧ ∃ (z : Database) (rows : List Entry), (z = x ∨ z = y) ∧
      Server.Exhausts engine (fun x => buildDeletePlan conv std getTableInfo x q) z z r ∧
        batch r = rows.map (fun e => .remove e.1) ∧
          (Store conv t (z.tables t.name) → ∀ e, e ∈ rows ↔ e ∈ z.tables t.name ∧ clause.reads e = true) := by
  obtain ⟨raised, raised', p, p1, p2, hp, hb, hi, hn⟩ := h
  obtain ⟨rfl, hreads, hall⟩ | ⟨select, rfl, hall, hscans, hne, hrows⟩ := clause.buildDeletePlan_reads hv hused hq ht hp
  · have hb' := hb
    have hn' := hn
    rw [he] at hb hn
    cases hb
    obtain rfl := iterates_empty he hi
    cases hn
    refine ⟨fun d hd => by (cases hd), x, [], .inl rfl, ?_, rfl, fun _ e => by simp [hreads e]⟩
    exact ⟨raised, raised', .empty, .empty, .empty, hp, by rw [he]; rfl, hi, hn'⟩
  · obtain ⟨d, rfl, htable, hf, hbatch, -⟩ := exhausts_delete he hscans hne hb hi hn
    refine ⟨fun d' hd => by (cases hd; exact htable), select.seen x y, _, ?_, ?_, ?_, fun hs => hrows _ hs hf⟩
    · cases select with
      | single info => exact .inr rfl
      | unionAll plans => exact .inl rfl
    · rw [begin_seen he hscans hne] at hb
      exact ⟨raised, raised', _, p1, p2, hall _, hb, hi, hn⟩
    · rw [batch, hbatch, List.map_map]
      rfl

/-- A DELETE from table `t`. -/
def statement (he : engine.toExecutionPlan = execution conv canceled) (hv : t.Valid) (hused : used ≤ blockSize)
    (hq : rewrite (deleteNode name clause.node) used = .ok q used') (ht : getTableInfo name = some t) (std : StdSort) :
    WriteStatement conv t RemovePlan τ where
  engine := engine
  build x := buildDeletePlan conv std getTableInfo x q
  batch := batch
  end_ok := by
    intro x y db db' r r' hx hend
    obtain ⟨htable, -⟩ := exhausts_reads he hv hused hq ht hx
    rw [he] at hend
    cases r with
    | empty =>
      cases hend
      exact (Database.write_nil conv t _).symm
    | delete d =>
      simp only [execution, «end»] at hend
      split at hend
      · next hx =>
        cases hend
        rw [(LevelDBDeletePlan.end_ok hx).1, htable d rfl]
        rfl
      · cases hend
  end_error := end_error he
  end_again h found hfound := end_again he h hfound

end

end LevelDBPlanBuilder.RemovePlan

def PutsRows (conv : Conversions) (t : TableInfo) (ops : List BatchOp) : Prop :=
  ∃ rows es, List.Forall₂ (LevelDBInsertPlan.Holds conv t) rows es ∧ ops = es.map (fun e => .put e.1 e.2)

/-- An INSERT writes rows of the table under keys that a DELETE does not remove. -/
structure Apart (conv : Conversions) (t : TableInfo) (is ds : List BatchOp) : Prop where
  puts : PutsRows conv t is
  keys : ∀ a ∈ is, ∀ b ∈ ds, keyCompare conv t.keyTypes a.key b.key ≠ .eq

namespace PutsRows

variable {ops : List BatchOp} {db : Database}

theorem write_store (h : PutsRows conv t ops) (hv : t.Valid) (hs : Store conv t (db.tables t.name)) :
    Store conv t ((db.write conv t ops).tables t.name) := by
  obtain ⟨rows, es, hes, rfl⟩ := h
  rw [Database.write, applyAll_puts]
  dsimp only
  rw [Function.update_self]
  exact (LevelDBInsertPlan.commit_upserts hv hs hes).1

theorem keys (h : PutsRows conv t ops) : ∀ op ∈ ops, ∃ ks, IsKey conv t.keyTypes ks op.key := by
  obtain ⟨rows, es, hes, rfl⟩ := h
  intro op hop
  obtain ⟨e, he, rfl⟩ := List.mem_map.mp hop
  obtain ⟨i, hi, rfl⟩ := List.mem_iff_getElem.mp he
  exact ⟨_, ((List.forall₂_iff_get.mp hes).2 i (hes.length_eq ▸ hi) hi).key⟩

end PutsRows

theorem Apart.write_comm {is ds : List BatchOp} {db : Database} (h : Apart conv t is ds) (hv : t.Valid)
    (hs : Store conv t (db.tables t.name)) (hds : ∀ op ∈ ds, ∃ ks, IsKey conv t.keyTypes ks op.key) :
    (db.write conv t is).write conv t ds = (db.write conv t ds).write conv t is := by
  have hc := LevelDBInsertPlan.keyCompare_compares conv hv
  have hne : ∀ a ∈ is, ∀ b ∈ ds, ranks (t.keyOf (a.key, [])) ≠ ranks (t.keyOf (b.key, [])) := by
    intro a hao b hbd heq
    refine h.keys a hao b hbd ?_
    rw [hc a.key b.key (h.puts.keys a hao) (hds b hbd)]
    exact ThreeWay.order_eq_eq.mpr heq
  simp only [Database.write, Function.update_self, Function.update_idem]
  rw [applyAll_comm hc h.puts.keys hds hs.keys (hs.pairwise_ranks hv) hne]

section Main

variable {source : SourcePlan σ Database} {inserting : Engine (InsertStatement σ) Database τ}
  {build : Database → Fallible (InsertStatement σ)} {canceled : Option Nat → Cursor → Bool}
  {deleting : Engine RemovePlan Database τ'} {std : StdSort} {getTableInfo : Bytes → Option TableInfo} {name : Bytes}
  {clause : Clause conv t} {q : ParseNode} {used used' : Nat}

/-- A DELETE collects the keys of the rows that its clause is taken to hold of, in one of the
states of the database that it has seen. -/
theorem LevelDBPlanBuilder.RemovePlan.collects_reads (he : deleting.toExecutionPlan = execution conv canceled) (hv : t.Valid)
    (hused : used ≤ blockSize) (hq : rewrite (deleteNode name clause.node) used = .ok q used')
    (ht : getTableInfo name = some t) {x y : Database} {ds : List BatchOp}
    (h : (statement he hv hused hq ht std).Collects x y ds) :
    ∃ (z : Database) (rows : List Entry), (z = x ∨ z = y) ∧ ds = rows.map (fun e => .remove e.1) ∧
      (Store conv t (z.tables t.name) → ∀ e, e ∈ rows ↔ e ∈ z.tables t.name ∧ clause.reads e = true) := by
  obtain ⟨r, hr, rfl, -⟩ := h
  obtain ⟨-, z, rows, hz, -, hbatch, hrows⟩ := exhausts_reads he hv hused hq ht hr
  exact ⟨z, rows, hz, hbatch, hrows⟩

theorem LevelDBPlanBuilder.RemovePlan.collects_keys (he : deleting.toExecutionPlan = execution conv canceled) (hv : t.Valid)
    (hused : used ≤ blockSize) (hq : rewrite (deleteNode name clause.node) used = .ok q used')
    (ht : getTableInfo name = some t) {x : Database} {ds : List BatchOp} (hs : Store conv t (x.tables t.name))
    (h : (statement he hv hused hq ht std).Collects x x ds) : ∀ op ∈ ds, ∃ ks, IsKey conv t.keyTypes ks op.key := by
  obtain ⟨z, rows, hz, rfl, hrows⟩ := collects_reads he hv hused hq ht h
  obtain rfl : z = x := by simpa using hz
  intro op hop
  obtain ⟨e, hm, rfl⟩ := List.mem_map.mp hop
  exact hs.keys e ((hrows hs e).mp hm).1

/-- In every interleaving of an INSERT and a DELETE the batches are applied in the order of the
commits. The result is serial whenever the two, one after the other, would write the same
batches, in the order of the commits or without a common key. The DELETE removes a row of the
INSERT that it is not meant for only if it has seen, before the INSERT's commit, a row with
the same key that it is meant for. -/
theorem interleaved (hi : inserting.toExecutionPlan = LevelDBInsertPlan.execution conv source)
    (hbuild : ∀ x p, build x = .ok p → LevelDBInsertPlan.Of t [] p)
    (hd : deleting.toExecutionPlan = RemovePlan.execution conv canceled) (hv : t.Valid) (hused : used ≤ blockSize)
    (hq : rewrite (deleteNode name clause.node) used = .ok q used') (ht : getTableInfo name = some t) (db : Database)
    (hs : Store conv t (db.tables t.name)) (hdb : db.status = none) (turns : List Turn)
    (xi yi fi xd yd fd final : Database) (is ds : List BatchOp) :
    let I : WriteStatement conv t (InsertStatement σ) τ := LevelDBInsertPlan.statement hv hi hbuild
    let D : WriteStatement conv t RemovePlan τ' := RemovePlan.statement hd hv hused hq ht std
    (Sessions.start db).run I D turns = ⟨.committed xi yi fi is, .committed xd yd fd ds, final⟩ →
    Sessions.Committed I D db xi yi fi xd yd fd final is ds ∧
      ((I.Collects db db is ∧ D.Collects (db.write conv t is) (db.write conv t is) ds ∧
            (final = (db.write conv t is).write conv t ds ∨ Apart conv t is ds)) ∨
          (D.Collects db db ds ∧ I.Collects (db.write conv t ds) (db.write conv t ds) is ∧
            (final = (db.write conv t ds).write conv t is ∨ Apart conv t is ds)) → Sessions.Serial I D db final) ∧
      (PutsRows conv t is → ∀ e, .put e.1 e.2 ∈ is → e ∈ (fi.write conv t is).tables t.name → clause.reads e = false →
        e ∉ final.tables t.name → fi = db ∧ (xd = db ∨ yd = db) ∧
          ∃ old ∈ db.tables t.name, clause.reads old = true ∧ keyCompare conv t.keyTypes old.1 e.1 = .eq) := by
  intro I D hrun
  have hcommitted := Sessions.run_committed hrun
  refine ⟨hcommitted, ?_, ?_⟩
  · rintro (⟨hins, hdel, horder⟩ | ⟨hdel, hins, horder⟩)
    · have hfinal : final = (db.write conv t is).write conv t ds := by
        obtain hfinal | hapart := horder
        · exact hfinal
        · obtain ⟨-, -, hfinal⟩ | ⟨-, -, hfinal⟩ := hcommitted.order
          · exact hfinal
          · rw [hfinal, hapart.write_comm hv hs]
            exact RemovePlan.collects_keys hd hv hused hq ht (hapart.puts.write_store hv hs) hdel
      subst hfinal
      exact ⟨_, .inl ⟨hins.alone hdb, hdel.alone hdb⟩⟩
    · have hfinal : final = (db.write conv t ds).write conv t is := by
        obtain hfinal | hapart := horder
        · exact hfinal
        · obtain ⟨-, -, hfinal⟩ | ⟨-, -, hfinal⟩ := hcommitted.order
          · rw [hfinal, hapart.write_comm hv hs]
            exact RemovePlan.collects_keys hd hv hused hq ht hs hdel
          · exact hfinal
      subst hfinal
      exact ⟨_, .inr ⟨hdel.alone hdb, hins.alone hdb⟩⟩
  · intro hputs e hput hthere hreads hgone
    obtain ⟨hfi, hfd, hfinal⟩ | ⟨-, hfi, hfinal⟩ := hcommitted.order
    · subst hfi
      obtain ⟨z, rows, hz, rfl, hrows⟩ := RemovePlan.collects_reads hd hv hused hq ht hcommitted.delete
      have hs' : Store conv t (fd.tables t.name) := hfd ▸ hputs.write_store hv hs
      have hbefore : e ∈ fd.tables t.name := by
        rw [hfd]
        exact hthere
      obtain ⟨r, hr, hkey⟩ : ∃ r ∈ rows, keyCompare conv t.keyTypes r.1 e.1 = .eq := by
        have hops : rows.map (fun r => (.remove r.1 : BatchOp)) = (rows.map Prod.fst).map .remove := by simp
        rw [hfinal, ← hfd, Database.write, hops] at hgone
        dsimp only at hgone
        rw [Function.update_self, mem_applyAll_removes, not_and] at hgone
        obtain ⟨k, hk, hkey⟩ := not_forall₂.mp (hgone hbefore)
        obtain ⟨r, hr, rfl⟩ := List.mem_map.mp hk
        exact ⟨r, hr, not_not.mp hkey⟩
      by_cases hzd : z = fd
      · subst hzd
        obtain ⟨hrz, hrreads⟩ := (hrows hs' r).mp hr
        have hplace := LevelDBInsertPlan.keyCompare_compares conv hv r.1 e.1 (hs'.keys r hrz) (hs'.keys e hbefore)
        rw [hkey] at hplace
        obtain rfl := SortedFilter.eq_of_place_eq (hs'.pairwise_ranks hv) hrz hbefore (ThreeWay.order_eq_eq.mp hplace.symm)
        rw [hreads] at hrreads
        cases hrreads
      · have hsees : z = fi ∧ (xd = fi ∨ yd = fi) := by
          obtain ⟨hx, hy⟩ := hcommitted.delete_sees
          obtain rfl | rfl := hz
          · have hzx := hx.resolve_right hzd
            exact ⟨hzx, .inl hzx⟩
          · have hzy := hy.resolve_right hzd
            exact ⟨hzy, .inr hzy⟩
        obtain ⟨rfl, hxy⟩ := hsees
        obtain ⟨hrz, hrreads⟩ := (hrows hs r).mp hr
        exact ⟨rfl, hxy, r, hrz, hrreads, hkey⟩
    · rw [hfinal, ← hfi] at hgone
      exact absurd hthere hgone

end Main

def pairTable : TableInfo where
  name := bytes "t"
  columns := [{ name := bytes "a", type := .string, keyIndex := some 0 }, { name := bytes "b", type := .string, index := 1, valueIndex := some 0 }]
  keys := [0]
  values := [1]
  attr := [(bytes "path", bytes "p")]

theorem pairTable_valid : pairTable.Valid :=
  @TableInfo.define_valid (bytes "t") (bytes "p") [⟨bytes "a", .string, 0⟩, ⟨bytes "b", .string, 0⟩] [bytes "a"] _ rfl
    (by decide) (by decide)

def pairOf (b : UInt8) : Entry := ([1, 0, 101], [1, 0, b])

/-- The table holds the row `('e', 'x')`. -/
def databaseX : Database := { tables := fun _ => [pairOf 120] }

def tablePairs (name : Bytes) : Option TableInfo := if name = bytes "t" then some pairTable else none

theorem pairOf_store (b : UInt8) : Store decimalConversions pairTable [pairOf b] where
  ordered := List.pairwise_singleton _ _
  keys e he := by
    obtain rfl := List.mem_singleton.mp he
    exact ⟨[.string [101]], .cons rfl .nil, by simp [Readable], by simp, [[1, 0, 101]], rfl, rfl⟩
  values e he i hi := by
    obtain rfl := List.mem_singleton.mp he
    obtain rfl : i = 0 := by simpa [pairTable] using hi
    exact ⟨_, rfl, by simp⟩

def bIsX : Comparison :=
  ⟨.compEq, bytes "b='x'", .node .name .none (bytes "b") (bytes "b") [], .node .str .none (bytes "x") (bytes "x") []⟩

theorem bIsX_against :
    bIsX.Against pairTable { name := bytes "b", type := .string, index := 1, valueIndex := some 0 } bIsX.right :=
  .left ⟨rfl, rfl, rfl⟩ rfl

def whereX : Clause decimalConversions pairTable where
  clause := .comparisons (.node .op .compEq (bytes "b='x'") [] [bIsX.left, bIsX.right]) [bIsX]
    (.comparison bIsX rfl bIsX_against rfl rfl)
    (fun _ ha _ hb _ => (List.mem_singleton.mp ha).trans (List.mem_singleton.mp hb).symm)
  unrounded := by
    intro cmp hcmp c value ha hk
    obtain rfl := List.mem_singleton.mp hcmp
    obtain ⟨rfl, -⟩ := ha.unique bIsX_against
    exact absurd rfl hk

theorem whereX_rewrite : rewrite (deleteNode (bytes "t") whereX.node) 0 = .ok (deleteNode (bytes "t") whereX.node) 0 := by
  simp [deleteNode, rewrite, rewriteChildren, rewriteOp, whereX, Clause.node, WhereClause.node, bIsX, bind, EStateM.bind, pure, EStateM.pure]

/-- `VALUES ('e', 'y')`; whether the row is still to come. -/
def valuesSource : SourcePlan Bool Database where
  «begin» _ _ := fun _ => .ok () true
  next _ := fun more => .ok more false
  «end» := pure ()
  getResultColumns _ := 2
  getProjectionName _ _ := []
  getResultType _ _ := .ok .string
  addProjection _ := pure none
  getResult _ i _ := .ok (.string (if i = 0 then [101] else [121]))

def insertPair : InsertStatement Bool where
  plan := .create pairTable
  state := (LevelDBInsertPlan.create pairTable).initial
  child := true

theorem insertPair_of : LevelDBInsertPlan.Of pairTable [] insertPair := ⟨rfl, rfl, rfl, rfl⟩

def insertY : WriteStatement decimalConversions pairTable (InsertStatement Bool) Unit :=
  @LevelDBInsertPlan.statement Bool Unit decimalConversions pairTable valuesSource
    (Server.executing (LevelDBInsertPlan.execution decimalConversions valuesSource) insertPair) (fun _ => .ok insertPair) pairTable_valid rfl
    (by rintro x p ⟨⟩; exact insertPair_of)

def deleteX : WriteStatement decimalConversions pairTable RemovePlan Unit :=
  @RemovePlan.statement Unit decimalConversions pairTable (fun _ _ => false) removing tablePairs (bytes "t") whereX _ 0 0 rfl pairTable_valid (Nat.zero_le _)
    whereX_rewrite rfl insertionSort

theorem valuesSource_rows {db : Database} {rows : List (List ExecutionResult)}
    (h : valuesSource.Rows (valuesSource.readRow pairTable) db true rows) : rows = [[.string [101], .string [121]]] := by
  obtain ⟨_, c, _, c', _, hb, hd, hn⟩ := h
  cases hb
  have hall : (rows = [] ∧ c' = true) ∨ (rows = [[.string [101], .string [121]]] ∧ c' = false) := by
    clear hn
    induction hd with
    | refl => exact .inl ⟨rfl, rfl⟩
    | step _ hnext hread ih =>
      obtain ⟨rfl, rfl⟩ | ⟨-, rfl⟩ := ih
      · cases hnext
        cases hread
        exact .inr ⟨rfl, rfl⟩
      · cases hnext
  obtain ⟨-, rfl⟩ | ⟨hrows, -⟩ := hall
  · cases hn
  · exact hrows

theorem insertY_collects {x y : Database} {ops : List BatchOp} (h : insertY.Collects x y ops) :
    ops = [.put (pairOf 121).1 (pairOf 121).2] := by
  obtain ⟨r, hr, rfl, -⟩ := h
  obtain ⟨p, rows, es, hp, hrows, hes, ho⟩ :=
    @LevelDBInsertPlan.exhausts _ _ decimalConversions pairTable valuesSource _ _ pairTable_valid rfl
      (fun x p hp => (Except.ok.inj hp) ▸ insertPair_of) _ _ _ hr
  cases hp
  obtain rfl := valuesSource_rows hrows
  obtain ⟨e, es, he, hnil, rfl⟩ := List.forall₂_cons_left_iff.mp hes
  cases hnil
  cases he
  change r.state.batch.map _ = _
  rw [ho.batch]
  rfl

theorem whereX_other : whereX.clause.satisfies decimalConversions (pairOf 121) = false :=
  satisfies_of_testAll (.comparison bIsX rfl bIsX_against) rfl

/-- The DELETE has begun when the INSERT is executed, and commits after it. -/
def overlapping : List Turn :=
  [.delete none, .delete none] ++ List.replicate 5 (.insert none) ++ List.replicate 3 (.delete none)

theorem not_serial {final : Database} (hf : final.tables (bytes "t") = []) : ¬ Sessions.Serial insertY deleteX databaseX final := by
  have hput : ∀ db : Database, (db.write decimalConversions pairTable [.put (pairOf 121).1 (pairOf 121).2]).tables (bytes "t") ≠ [] := by
    intro db
    exact put_ne_nil _ _ _ _
  rintro ⟨mid, ⟨hi, hd⟩ | ⟨-, hi⟩⟩
  · obtain ⟨is, his, rfl⟩ := hi.collects
    obtain ⟨ds, hds, rfl⟩ := hd.collects
    obtain rfl := insertY_collects his
    obtain ⟨z, rows, hz, rfl, hrows⟩ := RemovePlan.collects_reads rfl pairTable_valid (Nat.zero_le _) whereX_rewrite rfl hds
    obtain rfl : z = databaseX.write decimalConversions pairTable [.put (pairOf 121).1 (pairOf 121).2] := by simpa using hz
    have hnone : rows = [] := by
      apply List.eq_nil_iff_forall_not_mem.mpr
      intro e he
      obtain ⟨hmem, hreads⟩ := (hrows (pairOf_store 121) e).mp he
      obtain rfl : e = pairOf 121 := List.mem_singleton.mp hmem
      exact absurd hreads (by rw [show whereX.reads (pairOf 121) = false from whereX_other]; decide)
    rw [hnone, List.map_nil, Database.write_nil] at hf
    exact hput _ hf
  · obtain ⟨is, his, rfl⟩ := hi.collects
    obtain rfl := insertY_collects his
    exact hput _ hf

theorem overlapping_run : ∃ xi yi fi xd yd fd final is ds, (Sessions.start databaseX).run insertY deleteX overlapping =
    ⟨.committed xi yi fi is, .committed xd yd fd ds, final⟩ ∧ final.tables (bytes "t") = [] := by
  have hins : ((Sessions.start databaseX).run insertY deleteX overlapping).insert.isCommitted = true := by
    decide +kernel
  have hdel : ((Sessions.start databaseX).run insertY deleteX overlapping).delete.isCommitted = true := by
    decide +kernel
  have hdb : ((Sessions.start databaseX).run insertY deleteX overlapping).db.tables (bytes "t") = [] := by
    decide +kernel
  generalize (Sessions.start databaseX).run insertY deleteX overlapping = s at hins hdel hdb
  obtain ⟨i, d, final⟩ := s
  obtain ⟨xi, yi, fi, is, rfl⟩ := Stage.isCommitted_iff.mp hins
  obtain ⟨xd, yd, fd, ds, rfl⟩ := Stage.isCommitted_iff.mp hdel
  exact ⟨xi, yi, fi, xd, yd, fd, final, is, ds, rfl, hdb⟩

theorem interleaved_overlapping : ∃ xi yi fi xd yd fd final is ds,
    (Sessions.start databaseX).run insertY deleteX overlapping =
      ⟨.committed xi yi fi is, .committed xd yd fd ds, final⟩ ∧
        Sessions.Committed insertY deleteX databaseX xi yi fi xd yd fd final is ds := by
  obtain ⟨xi, yi, fi, xd, yd, fd, final, is, ds, hrun, -⟩ := overlapping_run
  refine ⟨xi, yi, fi, xd, yd, fd, final, is, ds, hrun, ?_⟩
  exact (@interleaved Bool Unit Unit decimalConversions pairTable valuesSource _ _ _ removing insertionSort tablePairs
    (bytes "t") whereX _ 0 0 rfl (fun x p hp => (Except.ok.inj hp) ▸ insertPair_of) rfl pairTable_valid (Nat.zero_le _)
    whereX_rewrite rfl databaseX (pairOf_store 120) rfl overlapping _ _ _ _ _ _ _ _ _ hrun).1

/-- The DELETE removes the row that the INSERT has put in the place of the one it has seen. -/
theorem overlapping_not_serial : ∃ xi yi fi xd yd fd final is ds,
    (Sessions.start databaseX).run insertY deleteX overlapping =
      ⟨.committed xi yi fi is, .committed xd yd fd ds, final⟩ ∧ is = [.put (pairOf 121).1 (pairOf 121).2] ∧
        whereX.clause.satisfies decimalConversions (pairOf 121) = false ∧ final.tables (bytes "t") = [] ∧
          ¬ Sessions.Serial insertY deleteX databaseX final := by
  obtain ⟨xi, yi, fi, xd, yd, fd, final, is, ds, hrun, hfinal⟩ := overlapping_run
  exact ⟨xi, yi, fi, xd, yd, fd, final, is, ds, hrun, insertY_collects (Sessions.run_committed hrun).insert, whereX_other,
    hfinal, not_serial hfinal⟩

end LevelPgServer
