import LevelPgServer.PlanBuilder.UnionAll
import LevelPgServer.Server.ResultLoop
import LevelPgServer.Server.WriteStatement

namespace LevelPgServer

open PostgresProtocol ExceptRules WriteBatch

variable {π τ σ α : Type} {conv : Conversions} {t : TableInfo}

namespace SourcePlan

variable (source : SourcePlan σ Database)

/-- Calls of `next` deliver rows; `read` is what is read of each. -/
inductive Delivers (read : σ → Fallible α) : σ → List α → σ → Prop
  | refl (c : σ) : Delivers read c [] c
  | step {c c' c'' : σ} {rows : List α} {row : α} {raised : Option Nat} (h : Delivers read c rows c')
      (hn : source.next raised c' = .ok true c'') (hr : read c'' = .ok row) : Delivers read c (rows ++ [row]) c''

def Rows (read : σ → Fallible α) (db : Database) (child : σ) (rows : List α) : Prop :=
  ∃ raised c raised' c' c'', source.begin raised db child = .ok () c ∧ Delivers source read c rows c' ∧
    source.next raised' c' = .ok false c''

end SourcePlan

namespace LevelDBInsertPlan

variable {source : SourcePlan σ Database}

def execution (conv : Conversions) (source : SourcePlan σ Database) : ExecutionPlan (InsertStatement σ) Database where
  «begin» := beginStatement source
  next := nextStatement conv source
  «end» := endStatement conv source
  getResultColumns _ := 0
  getProjectionName s := source.getProjectionName s.child
  getResultType s := source.getResultType s.child
  getResult s i := source.getResultType s.child i >>= source.getResult s.child i
  getInfoString s := bytes ("INSERT 0 " ++ toString s.state.insertRows)

theorem onChild_ok {f : EStateM Fault σ α} {a : α} {s s' : InsertStatement σ} (h : onChild f s = .ok a s') :
    ∃ c, f s.child = .ok a c ∧ s' = { s with child := c } := by
  rw [onChild] at h
  split at h
  · next hc =>
    cases h
    exact ⟨_, hc, rfl⟩
  · cases h

theorem beginStatement_ok {raised : Option Nat} {db : Database} {s s' : InsertStatement σ}
    (h : beginStatement source raised db s = .ok () s') : ∃ c, source.begin raised db s.child = .ok () c ∧
      s' = { s with state := { s.state with insertRows := 0 }, child := c } := by
  rw [beginStatement] at h
  split at h
  · cases h
  · exact onChild_ok h

theorem nextStatement_true {raised : Option Nat} {s s' : InsertStatement σ}
    (h : nextStatement conv source raised s = .ok true s') : ∃ c row state, source.next raised s.child = .ok true c ∧
      source.readRow s.plan.table c = .ok row ∧ s.plan.next conv row s.state = .ok state ∧
      s' = { s with state, child := c } := by
  rw [nextStatement] at h
  split at h
  · cases h
  · cases h
  · next hc =>
    obtain ⟨c, hnext, rfl⟩ := onChild_ok hc
    split at h
    · cases h
    · next hs =>
      cases h
      obtain ⟨row, hrow, hs⟩ := bind_eq_ok.mp hs
      exact ⟨c, row, _, hnext, hrow, hs, rfl⟩

theorem nextStatement_false {raised : Option Nat} {s s' : InsertStatement σ}
    (h : nextStatement conv source raised s = .ok false s') : ∃ c, source.next raised s.child = .ok false c ∧
      s' = { s with child := c } := by
  rw [nextStatement] at h
  split at h
  · cases h
  · next hc =>
    cases h
    exact onChild_ok hc
  · split at h <;> cases h

theorem endStatement_ok {s s' : InsertStatement σ} {db db' : Database}
    (h : endStatement conv source (s, db) = .ok () (s', db')) : db' = db.write conv s.plan.table (batch s) := by
  rw [endStatement] at h
  split at h
  · cases h
  · next hc =>
    obtain ⟨c, -, rfl⟩ := onChild_ok hc
    rw [Database.commit] at h
    cases hst : db.status with
    | some e => simp [hst] at h
    | none =>
      rw [hst] at h
      cases h
      rfl

theorem endStatement_error {s s' : InsertStatement σ} {db db' : Database} {f : Fault}
    (h : endStatement conv source (s, db) = .error f (s', db')) : db' = db := by
  rw [endStatement] at h
  split at h
  · cases h
    rfl
  · rw [Database.commit] at h
    cases hst : db.status with
    | some e =>
      rw [hst] at h
      cases h
      rfl
    | none => simp [hst] at h

def Means (conv : Conversions) (t : TableInfo) (source : SourcePlan σ Database) (db : Database) (child : σ)
    (ops : List BatchOp) : Prop :=
  ∃ rows es, source.Rows (source.readRow t) db child rows ∧
    List.Forall₂ (fun row e => (create t).entryOf conv row = .ok e) rows es ∧ ops = es.map (fun e => .put e.1 e.2)

/-- An INSERT into a table whose batch holds what runs of the plan that failed have left. -/
structure Of (t : TableInfo) (left : List Entry) (s : InsertStatement σ) : Prop where
  plan : s.plan = create t
  keys : s.state.keyResults.length = t.keys.length
  values : s.state.valueResults.length = t.values.length
  batch : s.state.batch = left

theorem Of.iterates (hv : t.Valid) {engine : Engine (InsertStatement σ) Database τ}
    (he : engine.toExecutionPlan = execution conv source) {left : List Entry} {s s' : InsertStatement σ}
    (h : Of t left s) (hi : Server.Iterates engine s s') : ∃ rows es, source.Delivers (source.readRow t) s.child rows s'.child ∧
      List.Forall₂ (fun row e => (create t).entryOf conv row = .ok e) rows es ∧ Of t (left ++ es) s' := by
  induction hi with
  | refl => exact ⟨[], [], .refl _, .nil, by simpa using h⟩
  | step _ hn ih =>
    obtain ⟨rows, es, hd, hf, ho⟩ := ih
    rw [he] at hn
    obtain ⟨c, row, state, hnext, hrow, hstate, rfl⟩ := nextStatement_true hn
    rw [ho.plan] at hrow hstate
    rw [next_eq hv (source.length_readRow hrow) ho.keys ho.values] at hstate
    cases hentry : (create t).entryOf conv row with
    | error f =>
      rw [hentry] at hstate
      cases hstate
    | ok e =>
      rw [hentry] at hstate
      cases hstate
      refine ⟨rows ++ [row], es ++ [e], .step hd hnext hrow, List.rel_append hf (.cons hentry .nil), ?_⟩
      refine ⟨ho.plan, by simp [TableInfo.keyRow], by simp [TableInfo.valueRow], ?_⟩
      change _ ++ [e] = _
      rw [ho.batch, List.append_assoc]

end LevelDBInsertPlan

namespace LevelDBDeletePlan

variable {source : SourcePlan σ Database}

def execution (conv : Conversions) (source : SourcePlan σ Database) : ExecutionPlan (LevelDBDeletePlan σ) Database where
  «begin» := «begin» source
  next := next conv source
  «end» := «end» conv source
  getResultColumns _ := 0
  getProjectionName s := source.getProjectionName s.child
  getResultType s := source.getResultType s.child
  getResult s i := source.getResultType s.child i >>= source.getResult s.child i
  getInfoString s := bytes ("DELETE " ++ toString s.deleteRows)

theorem onChild_ok {f : EStateM Fault σ α} {a : α} {s s' : LevelDBDeletePlan σ} (h : onChild f s = .ok a s') :
    ∃ c, f s.child = .ok a c ∧ s' = { s with child := c } := by
  rw [onChild] at h
  split at h
  · next hc =>
    cases h
    exact ⟨_, hc, rfl⟩
  · cases h

theorem begin_ok {raised : Option Nat} {db : Database} {s s' : LevelDBDeletePlan σ}
    (h : «begin» source raised db s = .ok () s') : ∃ i c c', source.addProjection rowkeyNode s.child = .ok i c ∧
      source.begin raised db c = .ok () c' ∧ s' = { s with child := c', rowkeyProjection := i, deleteRows := 0 } := by
  rw [«begin»] at h
  split at h
  · cases h
  · next hp =>
    obtain ⟨c, hc, rfl⟩ := onChild_ok hp
    obtain ⟨c', hc', rfl⟩ := onChild_ok h
    exact ⟨_, c, c', hc, hc', rfl⟩

theorem next_true {raised : Option Nat} {s s' : LevelDBDeletePlan σ} (h : next conv source raised s = .ok true s') :
    ∃ c key, source.next raised s.child = .ok true c ∧ readKey conv source s.rowkeyProjection c = .ok key ∧
      s' = { s with child := c, batch := s.batch ++ [key], deleteRows := s.deleteRows + 1 } := by
  rw [next] at h
  split at h
  · cases h
  · cases h
  · next hc =>
    obtain ⟨c, hnext, rfl⟩ := onChild_ok hc
    split at h
    · cases h
    · next hk =>
      cases h
      exact ⟨c, _, hnext, hk, rfl⟩

theorem next_false {raised : Option Nat} {s s' : LevelDBDeletePlan σ} (h : next conv source raised s = .ok false s') :
    ∃ c, source.next raised s.child = .ok false c ∧ s' = { s with child := c } := by
  rw [next] at h
  split at h
  · cases h
  · next hc =>
    cases h
    exact onChild_ok hc
  · split at h <;> cases h

theorem end_ok {s s' : LevelDBDeletePlan σ} {db db' : Database} (h : «end» conv source (s, db) = .ok () (s', db')) :
    db' = db.write conv s.table (s.batch.map .remove) ∧ s'.deleteRows = s.deleteRows := by
  rw [«end»] at h
  split at h
  · cases h
  · next hc =>
    obtain ⟨c, -, rfl⟩ := onChild_ok hc
    rw [Database.commit] at h
    cases hst : db.status with
    | some e => simp [hst] at h
    | none =>
      rw [hst] at h
      cases h
      exact ⟨rfl, rfl⟩

theorem end_error {s s' : LevelDBDeletePlan σ} {db db' : Database} {f : Fault}
    (h : «end» conv source (s, db) = .error f (s', db')) : db' = db := by
  rw [«end»] at h
  split at h
  · cases h
    rfl
  · rw [Database.commit] at h
    cases hst : db.status with
    | some e =>
      rw [hst] at h
      cases h
      rfl
    | none => simp [hst] at h

def Means (conv : Conversions) (source : SourcePlan σ Database) (db : Database) (child : σ) (ops : List BatchOp) : Prop :=
  ∃ i c keys, source.addProjection rowkeyNode child = .ok i c ∧ source.Rows (readKey conv source i) db c keys ∧
    ops = keys.map .remove

theorem iterates {engine : Engine (LevelDBDeletePlan σ) Database τ} (he : engine.toExecutionPlan = execution conv source)
    {s s' : LevelDBDeletePlan σ} (hi : Server.Iterates engine s s') :
    ∃ keys, source.Delivers (readKey conv source s.rowkeyProjection) s.child keys s'.child ∧ s'.table = s.table ∧
      s'.rowkeyProjection = s.rowkeyProjection ∧ s'.batch = s.batch ++ keys := by
  induction hi with
  | refl => exact ⟨[], .refl _, rfl, rfl, by simp⟩
  | step _ hn ih =>
    obtain ⟨keys, hd, ht, hp, hb⟩ := ih
    rw [he] at hn
    obtain ⟨c, key, hnext, hkey, rfl⟩ := next_true hn
    rw [hp] at hkey
    refine ⟨keys ++ [key], .step hd hnext hkey, ht, hp, ?_⟩
    rw [hb, List.append_assoc]

end LevelDBDeletePlan

namespace Server

open SessionInfo

/-- However its calls end and whenever it is cancelled, the execution that begins at `s` either
ends with the database as it was, or with the rows of the statement applied to it. -/
def Atomic (engine : Engine π Database τ) (conv : Conversions) (t : TableInfo) (means : List BatchOp → Prop)
    (s : Server π Database τ) : Prop :=
  ∀ es, (∀ e ∈ es, e.Internal) → ¬ (s.run engine es).session.control.Executing →
    ((s.run engine es).session.plan ≠ none ∧ (s.run engine es).db = s.db) ∨
      ((s.run engine es).session.plan = none ∧ ∃ ops, means ops ∧ (s.run engine es).db = s.db.write conv t ops)

/-- An INSERT applies, besides its own rows, what its batch has held before. -/
theorem insert_run (hv : t.Valid) {source : SourcePlan σ Database} {engine : Engine (InsertStatement σ) Database τ}
    (he : engine.toExecutionPlan = LevelDBInsertPlan.execution conv source) {left : List Entry} {p : InsertStatement σ}
    (hp : LevelDBInsertPlan.Of t left p) {s : Server (InsertStatement σ) Database τ}
    (hc : s.session.control = .beginning) (hplan : s.session.plan = some p) :
    s.Atomic engine conv t (fun ops => ∃ ops', LevelDBInsertPlan.Means conv t source s.db p.child ops' ∧
      ops = left.map (fun e => .put e.1 e.2) ++ ops') := by
  intro es hes hend
  have hx := Execution.run (fun q => by rw [he]; rfl) hes (.started hc hplan rfl : Execution engine s.db p s)
  generalize s.run engine es = s' at hx hend
  have hdone {raised : Option Nat} {p1 q : InsertStatement σ} (hb : engine.begin raised s.db p = .ok () p1)
      (hi : Iterates engine p1 q) : ∃ rows es, source.Delivers (source.readRow t) p1.child rows q.child ∧
        List.Forall₂ (fun row e => (LevelDBInsertPlan.create t).entryOf conv row = .ok e) rows es ∧
          LevelDBInsertPlan.Of t (left ++ es) q ∧ source.begin raised s.db p.child = .ok () p1.child := by
    rw [he] at hb
    obtain ⟨c, hbegin, rfl⟩ := LevelDBInsertPlan.beginStatement_ok hb
    obtain ⟨rows, es, hd, hf, ho⟩ := LevelDBInsertPlan.Of.iterates hv he
      (⟨hp.plan, hp.keys, hp.values, hp.batch⟩ : LevelDBInsertPlan.Of t left
        { p with state := { p.state with insertRows := 0 }, child := c }) hi
    exact ⟨rows, es, hd, hf, ho, hbegin⟩
  cases hx with
  | started hc => exact absurd (by rw [hc]; trivial) hend
  | running _ _ hc =>
    simp only [List.mem_cons, List.not_mem_nil, or_false] at hc
    obtain hc | hc | hc := hc <;> exact absurd (by rw [hc]; trivial) hend
  | finishing _ _ _ hc => exact absurd (by rw [hc]; trivial) hend
  | failed _ hp' hdb => exact .inl ⟨by simp [hp'], hdb⟩
  | endFailed _ _ _ hend' _ hp' =>
    rw [he] at hend'
    exact .inl ⟨by simp [hp'], LevelDBInsertPlan.endStatement_error hend'⟩
  | done hb hi hn hend' _ hp' =>
    obtain ⟨rows, es, hd, hf, ho, hbegin⟩ := hdone hb hi
    rw [he] at hn hend'
    obtain ⟨c, hnext, rfl⟩ := LevelDBInsertPlan.nextStatement_false hn
    refine .inr ⟨hp', _, ⟨es.map (fun e => .put e.1 e.2), ⟨rows, es, ⟨_, _, _, _, _, hbegin, hd, hnext⟩, hf, rfl⟩, rfl⟩, ?_⟩
    rw [LevelDBInsertPlan.endStatement_ok hend', ho.plan, LevelDBInsertPlan.batch, ho.batch, List.map_append]
    rfl

/-- A DELETE removes, besides the keys of its own rows, those its batch has held before. -/
theorem delete_run {source : SourcePlan σ Database} {engine : Engine (LevelDBDeletePlan σ) Database τ}
    (he : engine.toExecutionPlan = LevelDBDeletePlan.execution conv source) {p : LevelDBDeletePlan σ} (ht : p.table = t)
    {s : Server (LevelDBDeletePlan σ) Database τ} (hc : s.session.control = .beginning) (hplan : s.session.plan = some p) :
    s.Atomic engine conv t (fun ops => ∃ ops', LevelDBDeletePlan.Means conv source s.db p.child ops' ∧
      ops = p.batch.map .remove ++ ops') := by
  intro es hes hend
  have hx := Execution.run (fun q => by rw [he]; rfl) hes (.started hc hplan rfl : Execution engine s.db p s)
  generalize s.run engine es = s' at hx hend
  cases hx with
  | started hc => exact absurd (by rw [hc]; trivial) hend
  | running _ _ hc =>
    simp only [List.mem_cons, List.not_mem_nil, or_false] at hc
    obtain hc | hc | hc := hc <;> exact absurd (by rw [hc]; trivial) hend
  | finishing _ _ _ hc => exact absurd (by rw [hc]; trivial) hend
  | failed _ hp' hdb => exact .inl ⟨by simp [hp'], hdb⟩
  | endFailed _ _ _ hend' _ hp' =>
    rw [he] at hend'
    exact .inl ⟨by simp [hp'], LevelDBDeletePlan.end_error hend'⟩
  | done hb hi hn hend' _ hp' =>
    rw [he] at hb hn hend'
    obtain ⟨i, c, c', hproj, hbegin, rfl⟩ := LevelDBDeletePlan.begin_ok hb
    obtain ⟨keys, hd, ht', -, hbatch⟩ := LevelDBDeletePlan.iterates he hi
    obtain ⟨c'', hnext, rfl⟩ := LevelDBDeletePlan.next_false hn
    refine .inr ⟨hp', _, ⟨keys.map .remove, ⟨i, c, keys, hproj, ⟨_, _, _, _, _, hbegin, hd, hnext⟩, rfl⟩, rfl⟩, ?_⟩
    rw [(LevelDBDeletePlan.end_ok hend').1]
    rw [ht', hbatch, List.map_append]
    change s.db.write conv p.table _ = _
    rw [ht]

/-- Every execution of an INSERT is atomic whose batch holds `left` when it begins. -/
def InsertsAtomically (conv : Conversions) (t : TableInfo) (left : List Entry) : Prop :=
  ∀ (σ τ : Type) (source : SourcePlan σ Database) (engine : Engine (InsertStatement σ) Database τ) (p : InsertStatement σ)
    (s : Server (InsertStatement σ) Database τ), engine.toExecutionPlan = LevelDBInsertPlan.execution conv source →
    LevelDBInsertPlan.Of t left p → s.session.control = .beginning → s.session.plan = some p →
    s.Atomic engine conv t (LevelDBInsertPlan.Means conv t source s.db p.child)

/-- Every execution of a DELETE is atomic whose batch holds `left` when it begins. -/
def DeletesAtomically (conv : Conversions) (t : TableInfo) (left : List Bytes) : Prop :=
  ∀ (σ τ : Type) (source : SourcePlan σ Database) (engine : Engine (LevelDBDeletePlan σ) Database τ)
    (p : LevelDBDeletePlan σ) (s : Server (LevelDBDeletePlan σ) Database τ),
    engine.toExecutionPlan = LevelDBDeletePlan.execution conv source → p.table = t → p.batch = left →
    s.session.control = .beginning → s.session.plan = some p →
    s.Atomic engine conv t (LevelDBDeletePlan.Means conv source s.db p.child)

def emptySource (columns : Nat) : SourcePlan Unit Database where
  «begin» _ _ := pure ()
  next _ := pure false
  «end» := pure ()
  getResultColumns _ := columns
  getProjectionName _ _ := []
  getResultType _ _ := .error .undefined
  addProjection _ := pure (some 0)
  getResult _ _ _ := .error .undefined

theorem emptySource_rows {n : Nat} {read : Unit → Fallible α} {db : Database} {rows : List α}
    (h : (emptySource n).Rows read db () rows) : rows = [] := by
  obtain ⟨_, c, _, c', _, -, hd, -⟩ := h
  cases hd with
  | refl => rfl
  | step _ hn _ => cases hn

def executing (plans : ExecutionPlan π Database) (plan : π) : Engine π Database Unit where
  toExecutionPlan := plans
  parseSql _ := { tree := none, params := 0, allocs := [], error := none }
  setBindParamMode _ _ := id
  setString _ _ := id
  buildPlan _ := .ok plan
  emptyPlan := plan
  conv := ignoringEngine.conv
  fmt := ignoringEngine.fmt

def atBegin (plan : π) (db : Database) : Server π Database Unit :=
  ⟨{ index := 0, plan := some plan, result := some {}, qtype := char "E", control := .beginning }, db⟩

theorem run_empty {engine : Engine π Database Unit} {p q r r' : π} {db db' : Database}
    (hb : engine.begin none db p = .ok () q) (hn : engine.next none q = .ok false r)
    (he : engine.end (r, db) = .ok () (r', db')) :
    ((atBegin p db).run engine (List.replicate 3 (.tick none))).session.plan = none ∧
      ((atBegin p db).run engine (List.replicate 3 (.tick none))).db = db' ∧
        ¬ ((atBegin p db).run engine (List.replicate 3 (.tick none))).session.control.Executing := by
  have h1 : (atBegin p db).step engine (.tick none) = (atBegin p db).place q .firstNext := by
    simp [step, tick, seen, atBegin, place, hb]
  have h2 : ((atBegin p db).place q .firstNext).step engine (.tick none) = (atBegin p db).place r .finishing := by
    simp [step, tick, seen, atBegin, place, hn]
  have h3 : ((atBegin p db).place r .finishing).step engine (.tick none) =
      handleExecutionDone engine r ((atBegin p db).place r .finishing) := by
    simp [step, tick, atBegin, place]
  have hrun : (atBegin p db).run engine (List.replicate 3 (.tick none)) =
      handleExecutionDone engine r ((atBegin p db).place r .finishing) := by
    rw [← h3, ← h2, ← h1]
    rfl
  rw [hrun, handleExecutionDone, show ((atBegin p db).place r .finishing).db = db from rfl, he]
  exact ⟨doWrite_plan engine _ _ _, rfl, not_executing_doWrite engine _ _⟩

theorem insertsAtomically_iff (hv : t.Valid) (left : List Entry) : InsertsAtomically conv t left ↔ left = [] := by
  constructor
  · intro h
    by_contra hne
    let ops : List BatchOp := left.map (fun e => .put e.1 e.2)
    have hops : ops ≠ [] := by simpa [ops] using hne
    obtain ⟨es, hes⟩ := exists_applyAll_ne (keyCompare conv t.keyTypes) hops (by
      intro op hop hentry
      obtain ⟨e, -, rfl⟩ := List.mem_map.mp hop
      cases hentry) []
    let db : Database := { tables := fun _ => es }
    let p : InsertStatement Unit :=
      { plan := .create t
        state := { keyResults := List.replicate t.keys.length .null, valueResults := List.replicate t.values.length .null,
                   batch := left }
        child := () }
    let engine := executing (LevelDBInsertPlan.execution conv (emptySource t.getColumnCount)) p
    have hbegin : engine.begin none db p = .ok () p := by
      simp [engine, executing, LevelDBInsertPlan.execution, LevelDBInsertPlan.beginStatement, emptySource, p,
        LevelDBInsertPlan.create, LevelDBInsertPlan.onChild, pure, EStateM.pure]
    obtain ⟨hplan, hdb, hend⟩ := run_empty hbegin (rfl : engine.next none p = .ok false p)
      (rfl : engine.end (p, db) = .ok () (p, db.write conv t ops))
    have hatomic := h Unit Unit (emptySource t.getColumnCount) engine p (atBegin p db) rfl
      ⟨rfl, by simp [p], by simp [p], rfl⟩ rfl rfl (List.replicate 3 (.tick none))
      (by intro e he; rw [List.eq_of_mem_replicate he]; trivial) hend
    obtain ⟨hfail, -⟩ | ⟨-, ops', ⟨rows, es', hrows, hf, rfl⟩, hwrite⟩ := hatomic
    · exact hfail hplan
    · obtain rfl := emptySource_rows hrows
      cases hf
      rw [hdb] at hwrite
      change db.write conv t ops = db.write conv t [] at hwrite
      have hsame := congrArg (fun d : Database => d.tables t.name) hwrite
      exact hes (by simpa [Database.write, db] using hsame)
  · rintro rfl σ τ source engine p s he hp hc hplan es hes hend
    obtain hsome | ⟨hnone, ops, ⟨ops', hm, ho⟩, hdb⟩ := insert_run hv he hp hc hplan es hes hend
    · exact .inl hsome
    · refine .inr ⟨hnone, ops', hm, ?_⟩
      rw [hdb, ho]
      rfl

theorem deletesAtomically_iff {left : List Bytes} (hleft : ∀ k ∈ left, keyCompare conv t.keyTypes k k = .eq) :
    DeletesAtomically conv t left ↔ left = [] := by
  constructor
  · intro h
    by_contra hne
    let ops : List BatchOp := left.map .remove
    have hops : ops ≠ [] := by simpa [ops] using hne
    obtain ⟨es, hes⟩ := exists_applyAll_ne (keyCompare conv t.keyTypes) hops (by
      intro op hop _
      obtain ⟨k, hk, rfl⟩ := List.mem_map.mp hop
      exact hleft k hk) []
    let db : Database := { tables := fun _ => es }
    let p : LevelDBDeletePlan Unit := { table := t, child := (), batch := left }
    let q : LevelDBDeletePlan Unit := { p with rowkeyProjection := some 0 }
    let engine := executing (LevelDBDeletePlan.execution conv (emptySource 0)) p
    obtain ⟨hplan, hdb, hend⟩ := run_empty (rfl : engine.begin none db p = .ok () q)
      (rfl : engine.next none q = .ok false q) (rfl : engine.end (q, db) = .ok () (q, db.write conv t ops))
    have hatomic := h Unit Unit (emptySource 0) engine p (atBegin p db) rfl rfl rfl rfl rfl
      (List.replicate 3 (.tick none)) (by intro e he; rw [List.eq_of_mem_replicate he]; trivial) hend
    obtain ⟨hfail, -⟩ | ⟨-, ops', ⟨i, c, keys, -, hrows, rfl⟩, hwrite⟩ := hatomic
    · exact hfail hplan
    · obtain rfl := emptySource_rows hrows
      rw [hdb] at hwrite
      change db.write conv t ops = db.write conv t [] at hwrite
      have hsame := congrArg (fun d : Database => d.tables t.name) hwrite
      exact hes (by simpa [Database.write, db] using hsame)
  · rintro rfl σ τ source engine p s he ht hp hc hplan es hes hend
    obtain hsome | ⟨hnone, ops, ⟨ops', hm, ho⟩, hdb⟩ := delete_run he ht hc hplan es hes hend
    · exact .inl hsome
    · refine .inr ⟨hnone, ops', hm, ?_⟩
      rw [hdb, ho, hp]
      rfl

/-- The keys that a DELETE has left in its batch are keys of its table. -/
theorem keyCompare_self {ks : List ExecutionResult} {k : Bytes} (h : IsKey conv t.keyTypes ks k) :
    keyCompare conv t.keyTypes k k = .eq := by
  obtain ⟨cs, hcs, hk⟩ := h.stored
  rw [h.compare h.ordered hcs hk, ThreeWay.order_self]

/-- One execution of an INSERT or a DELETE ends with an error and the database as it was, or with
exactly its own rows applied, if and only if the batch of the plan is empty when it begins. -/
theorem atomic_iff (conv : Conversions) (t : TableInfo) (hv : t.Valid) (entries : List Entry) (keys : List Bytes)
    (hkeys : ∀ k ∈ keys, ∃ ks, IsKey conv t.keyTypes ks k) :
    (InsertsAtomically conv t entries ↔ entries = []) ∧ (DeletesAtomically conv t keys ↔ keys = []) := by
  refine ⟨insertsAtomically_iff hv entries, deletesAtomically_iff fun k hk => ?_⟩
  obtain ⟨ks, h⟩ := hkeys k hk
  exact keyCompare_self h

end Server

open LevelDBPlanBuilder (rowE)
open LevelDBPlanBuilder.ScanPlanInfo (nameTable nameTable_valid)

theorem atomic_iff_nameTable :
    (Server.InsertsAtomically decimalConversions nameTable [] ↔ ([] : List Entry) = []) ∧
      (Server.DeletesAtomically decimalConversions nameTable [[1, 0, 101]] ↔ ([[1, 0, 101]] : List Bytes) = []) :=
  Server.atomic_iff decimalConversions nameTable nameTable_valid [] [[1, 0, 101]] (by
    intro k hk
    obtain rfl := List.mem_singleton.mp hk
    exact LevelDBPlanBuilder.rowE_store.keys ([1, 0, 101], []) (by simp [rowE]))

def namesSource : SourcePlan (List Entry × Option Entry) Database where
  «begin» _ db := fun _ => .ok () (db.tables (bytes "s"), none)
  next _ := fun s =>
    match s.1 with
    | [] => .ok false s
    | e :: es => .ok true (es, some e)
  «end» := pure ()
  getResultColumns _ := 1
  getProjectionName _ _ := bytes "a"
  getResultType _ _ := .ok .string
  addProjection _ := pure (some 0)
  getResult s i _ :=
    match s.2 with
    | some e => DataRow.getResult [.string] e.1 i
    | none => .error .undefined

def insertNames : InsertStatement (List Entry × Option Entry) where
  plan := .create nameTable
  state := (LevelDBInsertPlan.create nameTable).initial
  child := ([], none)

def insertEngine : Engine (InsertStatement (List Entry × Option Entry)) Database Unit :=
  Server.executing (LevelDBInsertPlan.execution decimalConversions namesSource) insertNames

/-- The row `e` is in `s`, and LevelDB refuses writes. -/
def refusing : Database where
  tables n := if n = bytes "s" then rowE else []
  status := some ": disk full"

/-- Another client has removed the row from `s`, and LevelDB accepts writes again. -/
def recovered : Database where
  tables _ := []

/-- The INSERT is executed, fails at its commit, and is executed again. -/
def executedAgain : Server (InsertStatement (List Entry × Option Entry)) Database Unit :=
  (Server.atBegin insertNames refusing).run insertEngine
    (List.replicate 5 (.tick none) ++ [.written, .commit recovered, .message (PostgresProtocol.char "E") 9 [0, 0, 0, 0, 0]])

/-- The row of the first execution is written by the second, which has no rows. -/
theorem executedAgain_not_atomic :
    executedAgain.session.control = .beginning ∧
      ((executedAgain.run insertEngine (List.replicate 3 (.tick none))).db.tables (bytes "t") = rowE ∧
        ∀ child, ¬ executedAgain.Atomic insertEngine decimalConversions nameTable
          (LevelDBInsertPlan.Means decimalConversions nameTable namesSource executedAgain.db child)) := by
  have hdb : executedAgain.db = recovered := rfl
  have hrow : (executedAgain.run insertEngine (List.replicate 3 (.tick none))).db.tables (bytes "t") = rowE := by
    decide +kernel
  refine ⟨by decide +kernel, hrow, fun child h => ?_⟩
  obtain ⟨hplan, -⟩ | ⟨-, ops, ⟨rows, es, ⟨raised, c, raised', c', c'', hb, hd, -⟩, hf, rfl⟩, hwrite⟩ :=
    h (List.replicate 3 (.tick none)) (by intro e he; rw [List.eq_of_mem_replicate he]; trivial)
      (by rw [show (executedAgain.run insertEngine (List.replicate 3 (.tick none))).session.control = _ from rfl]; exact id)
  · exact hplan rfl
  · cases hb
    have hnil : ∀ {rows c'}, namesSource.Delivers (namesSource.readRow nameTable) (([], none) : List Entry × Option Entry)
        rows c' → rows = [] ∧ c' = ([], none) := by
      intro rows c' hd
      induction hd with
      | refl => exact ⟨rfl, rfl⟩
      | step _ hn _ ih =>
        obtain ⟨-, rfl⟩ := ih
        cases hn
    obtain ⟨rfl, -⟩ := hnil hd
    cases hf
    rw [hwrite, hdb] at hrow
    cases hrow

end LevelPgServer
