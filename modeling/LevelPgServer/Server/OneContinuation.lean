import LevelPgServer.Lib.Runs
import LevelPgServer.Lib.StateRules
import LevelPgServer.Server.Continuations

namespace LevelPgServer

open ByteOrder PostgresProtocol PgDataWriter StateRules ExceptRules Call

variable {π δ τ α : Type}

/-- An exception, and its position is an `int`. -/
def Fault.Catchable : Fault → Prop
  | .undefined => False
  | .thrown x => (intText (SessionInfo.startPos x)).length ≤ 11

/-- The parser, the planner and the calls on plans do nothing undefined. -/
structure Engine.Defined (engine : Engine π δ τ) : Prop where
  parseSql : ∀ sql x, (engine.parseSql sql).error = some x → (Fault.thrown x).Catchable
  buildPlan : ∀ t, Errors Fault.Catchable (engine.buildPlan t)
  getResultType : ∀ p i, Errors Fault.Catchable (engine.getResultType p i)
  getResult : ∀ p i, Errors Fault.Catchable (engine.getResult p i)
  «begin» : ∀ raised db p f q, engine.begin raised db p = .error f q → f.Catchable
  next : ∀ raised p f q, engine.next raised p = .error f q → f.Catchable
  «end» : ∀ a f b, engine.end a = .error f b → f.Catchable

def Engine.Finite (engine : Engine π δ τ) : Prop :=
  ∃ rows : π → Nat, ∀ raised p q, engine.next raised p = .ok true q → rows q < rows p

def Engine.RowsFit (engine : Engine π δ τ) : Prop :=
  ∀ p w, buildData engine.conv engine.fmt (SessionInfo.currentRow engine p (engine.getResultColumns p)) { size := blockSize } = .ok w →
    w.full = false

theorem Fault.catchable_io (what : String) : (Fault.thrown (.io what)).Catchable := by
  have hlen : (intText (-1)).length ≤ 11 := by decide
  exact hlen

theorem Fault.catchable_parseError (what : String) : (Fault.thrown (parseError what)).Catchable := by
  have hlen : (intText (-1)).length ≤ 11 := by decide
  exact hlen

theorem Fault.catchable_execution (what : String) : (Fault.thrown (.execution what)).Catchable := by
  have hlen : (intText (-1)).length ≤ 11 := by decide
  exact hlen

theorem addColumn_errors (conv : Conversions) (fmt : Formats) (type : DBDataType) (result : ExecutionResult) (w : PgDataWriter) :
    Errors Fault.Catchable (addColumn conv fmt type result w) := by
  rw [addColumn]
  split
  · exact .of_ok _
  · cases type <;> cases result <;> first | exact .of_ok _ | exact .of_error (Fault.catchable_execution _)

theorem addColumns_errors (conv : Conversions) (fmt : Formats) {row : List (Fallible (DBDataType × ExecutionResult))}
    (hrow : ∀ x ∈ row, Errors Fault.Catchable x) (w : PgDataWriter) : Errors Fault.Catchable (addColumns conv fmt row w) := by
  induction row generalizing w with
  | nil => exact .of_ok w
  | cons x row ih =>
    exact (hrow x List.mem_cons_self).bind fun a => (addColumn_errors conv fmt a.1 a.2 w).bind fun w' =>
      ih (fun y hy => hrow y (List.mem_cons_of_mem x hy)) w'

theorem Engine.Defined.buildData {engine : Engine π δ τ} (h : engine.Defined) (p : π) (columnNum : Nat) (w : PgDataWriter) :
    Errors Fault.Catchable (buildData engine.conv engine.fmt (SessionInfo.currentRow engine p columnNum) w) := by
  refine (addColumns_errors engine.conv engine.fmt (fun x hx => ?_) _).bind fun w' => .of_ok _
  obtain ⟨i, -, rfl⟩ := List.mem_map.mp hx
  exact (h.getResultType p i).bind fun type => (h.getResult p i).bind fun r => .of_ok (type, r)

theorem Engine.Defined.describe {engine : Engine π δ τ} (h : engine.Defined) (p : π) (columnNum : Nat) :
    Errors Fault.Catchable (do
      let columns ← SessionInfo.descriptions engine p columnNum
      buildColumnDescription blockSize columns) := by
  refine (Errors.mapM (fun i => ?_) _).bind fun columns => ?_
  · exact (h.getResultType p i).bind fun type => .of_ok _
  · rw [buildColumnDescription]
    split
    · exact .of_error (Fault.catchable_io _)
    · exact .of_ok _

/-- What the server relies on in the planner and in plans: nothing undefined, finitely many rows, and a row fits
in the network buffer. -/
structure Engine.Regular (engine : Engine π δ τ) : Prop where
  defined : engine.Defined
  finite : engine.Finite
  rowsFit : engine.RowsFit

/-- It uses the plan. -/
def Continuation.executes : Continuation → Bool
  | .readMessageType | .readLen => false
  | _ => true

namespace ParseResult

def Catchable (m : EStateM Fault (ParseResult τ) α) : Prop :=
  Triple (fun _ => True) m (fun _ _ => True) (fun f _ => f.Catchable)

theorem catchable_modify (f : ParseResult τ → ParseResult τ) : Catchable (modify f : EStateM Fault (ParseResult τ) Unit) :=
  Triple.of_modify f fun _ _ => trivial

theorem alloc_catchable (size : Nat) : Catchable (alloc size : EStateM Fault (ParseResult τ) Region) := by
  intro r _
  rw [alloc]
  by_cases h : blockSize < r.current + size
  · rw [if_pos h]
    exact Fault.catchable_parseError _
  · rw [if_neg h]
    trivial

theorem parse_catchable {engine : Engine π δ τ} (hdefined : engine.Defined) (sql : Bytes) : Catchable (parse engine sql) := by
  refine (catchable_modify _).bind fun _ => (alloc_catchable _).bind fun s => (catchable_modify _).bind fun _ => ?_
  cases herror : (engine.parseSql sql).error with
  | none => exact Triple.of_pure () fun _ _ => trivial
  | some x => exact Triple.of_throw _ fun _ _ => hdefined.parseSql sql x herror

theorem bindAll_catchable (engine : Engine π δ τ) (i : Nat) (params : List (Bool × Bytes)) : Catchable (bindAll engine i params) := by
  induction params generalizing i with
  | nil => exact Triple.of_pure () fun _ _ => trivial
  | cons p params ih =>
    exact (catchable_modify _).bind fun _ => (alloc_catchable _).bind fun s => (catchable_modify _).bind fun _ => ih (i + 1)

end ParseResult

namespace SessionInfo

/-- The parse result is there, and nothing undefined has happened. -/
def Throws (f : Fault) (s : SessionInfo π τ) : Prop := f.Catchable ∧ s.result.isSome = true

theorem onResult_regular {m : EStateM Fault (ParseResult τ) α} (hm : ∀ r f r', m r = .error f r' → f.Catchable) :
    Triple (fun s : SessionInfo π τ => s.result.isSome = true) (onResult m)
      (fun _ s => s.result.isSome = true) Throws := by
  intro s hs
  obtain ⟨r, hr⟩ := Option.isSome_iff_exists.mp hs
  simp only [onResult, hr]
  cases hres : m r with
  | ok a r' => rfl
  | error e r' => exact ⟨hm r e r' hres, rfl⟩

theorem liftFallible_regular {x : Fallible α} (hx : Errors Fault.Catchable x) (P : SessionInfo π τ → Prop)
    (hP : ∀ s, P s → s.result.isSome = true) : Triple P (liftFallible x) (fun a s => P s ∧ x = .ok a) Throws := by
  intro s hs
  cases x with
  | ok a => exact ⟨hs, rfl⟩
  | error f => exact ⟨hx f rfl, hP s hs⟩

def HasPlan (s : SessionInfo π τ) : Prop := s.result.isSome = true ∧ s.plan.isSome = true

variable {engine : Engine π δ τ}

theorem parse_regular (hdefined : engine.Defined) (sql : Bytes) :
    Triple (fun s : SessionInfo π τ => s.result.isSome = true) (parse engine sql) (fun _ s => s.result.isSome = true) Throws := by
  refine (onResult_regular fun _ _ _ h => by cases h).bind fun _ => ?_
  split
  · exact Triple.of_pure () fun _ h => h
  · exact onResult_regular fun r f r' h => (ParseResult.parse_catchable hdefined sql).error trivial h

theorem resolve_regular (hdefined : engine.Defined) :
    Triple (fun s : SessionInfo π τ => s.result.isSome = true) (resolve engine) (fun _ => HasPlan) Throws := by
  refine (onResult_regular fun _ _ _ h => by cases h).bind fun r => ?_
  cases r.tree with
  | none => exact Triple.of_modify _ fun s h => ⟨h, rfl⟩
  | some tree =>
    refine (liftFallible_regular (hdefined.buildPlan tree) _ fun _ h => h).bind fun p => ?_
    exact Triple.of_modify _ fun s h => ⟨h.1, rfl⟩

end SessionInfo

namespace Connection

/-- Either one operation is outstanding, or the session has ended, once. -/
def OneContinuation (c : Connection π δ τ) : Prop := c.outstanding.length + c.free = 1

/-- The session has what the completion of the operation uses. -/
structure Supports (c : Connection π δ τ) (op : Operation) : Prop where
  socket : c.socket = true
  buffer : op ≠ .accept → c.buffer = true
  result : op ≠ .accept → c.session.result.isSome = true
  plan : ∀ out fn, op = .write out fn → fn.executes = true → c.session.plan.isSome = true

/-- Between events. -/
structure Settled (c : Connection π δ τ) : Prop where
  one : c.OneContinuation
  supports : ∀ op ∈ c.outstanding, c.Supports op

/-- While an event is handled, and nothing has been started yet. -/
structure Handling (c : Connection π δ τ) : Prop where
  outstanding : c.outstanding = []
  free : c.free = 0
  socket : c.socket = true
  buffer : c.buffer = true
  result : c.session.result.isSome = true

/-- An exception that can be caught, before anything has been started. -/
def Thrown (f : Fault) (c : Connection π δ τ) : Prop := f.Catchable ∧ c.Handling

theorem Handling.of_session {c : Connection π δ τ} (h : c.Handling) {s : SessionInfo π τ} (hs : s.result.isSome = true) :
    Handling { c with session := s } := ⟨h.outstanding, h.free, h.socket, h.buffer, hs⟩

theorem Handling.called {c : Connection π δ τ} (h : c.Handling) (p : π) (db : δ) : (c.called p db).Handling :=
  ⟨h.outstanding, h.free, h.socket, h.buffer, h.result⟩

theorem get_returns (c : Connection π δ τ) {R : Fault → Connection π δ τ → Prop} :
    Returns (fun _ => (get : Action π δ τ (Connection π δ τ))) c (fun c' c'' => c = c' ∧ c = c'') R :=
  .of_ok c c (fun _ => rfl) ⟨rfl, rfl⟩

theorem modify_returns (f : Connection π δ τ → Connection π δ τ) (c : Connection π δ τ) {R : Fault → Connection π δ τ → Prop} :
    Returns (fun _ => (modify f : Action π δ τ Unit)) c (fun _ c' => c' = f c) R :=
  .of_ok () (f c) (fun _ => rfl) rfl

theorem launch_returns (op : Operation) {c : Connection π δ τ} (h : c.Handling)
    (hplan : ∀ out fn, op = .write out fn → fn.executes = true → c.session.plan.isSome = true) {R : Fault → Connection π δ τ → Prop} :
    Returns (fun _ => launch op) c (fun _ => Settled) R := by
  refine .of_ok () { c with outstanding := c.outstanding ++ [op] } (fun n => ?_) ⟨?_, ?_⟩
  · rw [launch, bind_run]
    change (if c.socket && c.buffer then set { c with outstanding := c.outstanding ++ [op] } else undefined : Action π δ τ Unit).run c = _
    rw [h.socket, h.buffer]
    rfl
  · simp [OneContinuation, h.outstanding, h.free]
  · rw [h.outstanding]
    simp only [List.nil_append, List.mem_singleton]
    rintro _ rfl
    exact ⟨h.socket, fun _ => h.buffer, fun _ => h.result, hplan⟩

theorem end_returns {c : Connection π δ τ} (h : c.outstanding = []) (hfree : c.free = 0) {R : Fault → Connection π δ τ → Prop} :
    Returns (fun _ => «end») c (fun _ => Settled) R := by
  refine .of_ok _ _ (fun _ => rfl) ⟨?_, ?_⟩
  · simp [OneContinuation, h, hfree]
  · simp [h]

theorem onSession_returns {P : SessionInfo π τ → Prop} {m : SessionInfo.Handler π τ α} {Q : α → SessionInfo π τ → Prop}
    {R : Fault → SessionInfo π τ → Prop} (hm : Triple P m Q R) (hq : ∀ a s, Q a s → s.result.isSome = true)
    (hr : ∀ e s, R e s → SessionInfo.Throws e s) {c : Connection π δ τ} (h : c.Handling) (hp : P c.session) :
    Returns (fun _ => onSession m) c (fun a c' => c'.Handling ∧ Q a c'.session) Thrown := by
  have hrun := hm c.session hp
  cases hres : m c.session with
  | ok a s =>
    rw [hres] at hrun
    refine .of_ok a { c with session := s } (fun _ => ?_) ⟨h.of_session (hq a s hrun), hrun⟩
    simp only [onSession, hres]
  | error e s =>
    rw [hres] at hrun
    refine .of_error e { c with session := s } (fun _ => ?_) ⟨(hr e s hrun).1, h.of_session (hr e s hrun).2⟩
    simp only [onSession, hres]

theorem callPlan_returns {m : Option Nat → EStateM Fault (π × δ) α} (hm : ∀ raised a f b, m raised a = .error f b → f.Catchable)
    {c : Connection π δ τ} (h : c.Handling) {p : π} (hp : c.session.plan = some p) :
    Returns (fun _ => callPlan m) c
      (fun a c' => c'.Handling ∧ ∃ q db raised, c'.session.plan = some q ∧ m raised (p, c.db) = .ok a (q, db)) Thrown := by
  cases hres : m (Server.seen c.session (c.raises.headD none)) (p, c.db) with
  | ok a x =>
    obtain ⟨q, db⟩ := x
    refine .of_ok a (c.called q db) (fun _ => ?_) ⟨h.called q db, q, db, _, rfl, hres⟩
    simp only [callPlan, hp, hres]
  | error e x =>
    obtain ⟨q, db⟩ := x
    refine .of_error e (c.called q db) (fun _ => ?_) ⟨hm _ _ _ _ hres, h.called q db⟩
    simp only [callPlan, hp, hres]

theorem onPlan_defined {m : δ → EStateM Fault π α} (hm : ∀ db p f q, m db p = .error f q → f.Catchable) (a : π × δ) (f : Fault)
    (b : π × δ) (h : onPlan m a = .error f b) : f.Catchable := by
  obtain ⟨p, db⟩ := a
  rw [onPlan] at h
  cases hres : m db p with
  | ok a q =>
    rw [hres] at h
    cases h
  | error e q =>
    rw [hres] at h
    cases h
    exact hm db p _ _ hres

theorem onPlan_ok {m : δ → EStateM Fault π α} {p q : π} {db db' : δ} {a : α} (h : onPlan m (p, db) = .ok a (q, db')) :
    m db p = .ok a q := by
  rw [onPlan] at h
  cases hm : m db p with
  | ok b p' =>
    rw [hm] at h
    cases h
    rfl
  | error e p' =>
    rw [hm] at h
    cases h

theorem currentPlan_returns {c : Connection π δ τ} {p : π} (hp : c.session.plan = some p) {R : Fault → Connection π δ τ → Prop} :
    Returns (fun _ => currentPlan) c (fun q c' => p = q ∧ c = c') R := by
  refine .of_ok p c (fun _ => ?_) ⟨rfl, rfl⟩
  have hget : (get : Action π δ τ (Connection π δ τ)).run c = some (.ok c, c) := rfl
  rw [currentPlan, bind_run, hget]
  simp only [hp]
  rfl

variable (engine : Engine π δ τ)

theorem doWrite_returns {c : Connection π δ τ} (h : c.Handling) (out : Bytes) {fn : Continuation}
    (hfn : fn = .readMessageType ∨ fn = .readLen) {R : Fault → Connection π δ τ → Prop} :
    Returns (fun n => doWrite engine n out fn) c (fun _ => Settled) R := by
  have hexecutes : fn.executes = false := by obtain rfl | rfl := hfn <;> rfl
  by_cases hout : out = []
  · have hinvoke : Returns (fun n => invoke engine (doWrite engine n) n fn) c (fun _ => Settled) (fun _ _ => False) := by
      obtain rfl | rfl := hfn
      · exact launch_returns _ h fun _ _ hop => by cases hop
      · exact launch_returns _ h fun _ _ hop => by cases hop
    refine Returns.succ (x := fun n => written engine (doWrite engine n) n fn)
      (hinvoke.tryCatch fun _ _ hfalse => hfalse.elim) fun n => ?_
    rw [doWrite, if_pos hout]
  · refine (launch_returns (.write out fn) h fun _ _ hop hexec => ?_).succ fun n => by rw [doWrite, if_neg hout]
    cases hop
    rw [hexecutes] at hexec
    cases hexec

theorem caught_returns {f : Fault} {c : Connection π δ τ} (h : Thrown f c) {R : Fault → Connection π δ τ → Prop} :
    Returns (fun n => caught (doWrite engine n) f) c (fun _ => Settled) R := by
  obtain ⟨hf, h⟩ := h
  cases f with
  | undefined => exact hf.elim
  | thrown e =>
    refine (get_returns c).bind ?_
    rintro _ _ ⟨rfl, rfl⟩
    dsimp only
    split
    · exact end_returns h.outstanding h.free
    · exact doWrite_returns engine h _ (.inl rfl)

theorem written_returns {fn : Continuation} {c : Connection π δ τ}
    (h : Returns (fun n => invoke engine (doWrite engine n) n fn) c (fun _ => Settled) Thrown) {R : Fault → Connection π δ τ → Prop} :
    Returns (fun n => written engine (doWrite engine n) n fn) c (fun _ => Settled) R :=
  h.tryCatch fun _ _ hf => caught_returns engine hf

theorem handleExecutionDone_returns (hdefined : engine.Defined) {c : Connection π δ τ} (h : c.Handling)
    (hplan : c.session.plan.isSome = true) :
    Returns (fun n => handleExecutionDone engine (doWrite engine n)) c (fun _ => Settled) Thrown := by
  obtain ⟨p, hp⟩ := Option.isSome_iff_exists.mp hplan
  refine (callPlan_returns (fun _ => hdefined.end) h hp).bind fun _ c1 hc1 => ?_
  obtain ⟨h1, q, -, -, hq, -⟩ := hc1
  refine (currentPlan_returns hq).bind ?_
  rintro _ _ ⟨rfl, rfl⟩
  refine (modify_returns _ _).bind ?_
  rintro _ _ rfl
  refine (onSession_returns (SessionInfo.onResult_regular fun _ _ _ h => by cases h) (fun _ _ hs => hs) (fun _ _ hs => hs) (h1.of_session (s := { c1.session with plan := none }) h1.result) h1.result).bind fun _ c2 hc2 => ?_
  refine (get_returns c2).bind ?_
  rintro _ _ ⟨rfl, rfl⟩
  refine (modify_returns _ _).bind ?_
  rintro _ _ rfl
  have h2 : Handling { c2 with session := { c2.session with parsed := false, binded := false } } := hc2.1.of_session hc2.1.result
  exact doWrite_returns engine h2 _ (.inl rfl)

/-- What is written in an execution: when there is nothing to write, the continuation must return. -/
theorem doWrite_executing {c : Connection π δ τ} (h : c.Handling) (hplan : c.session.plan.isSome = true) (out : Bytes)
    {fn : Continuation} (hinvoke : out = [] → Returns (fun n => invoke engine (doWrite engine n) n fn) c (fun _ => Settled) Thrown)
    {R : Fault → Connection π δ τ → Prop} :
    Returns (fun n => doWrite engine n out fn) c (fun _ => Settled) R := by
  by_cases hout : out = []
  · exact (written_returns engine (hinvoke hout)).succ fun n => by rw [doWrite, if_pos hout]
  · refine (launch_returns (.write out fn) h fun _ _ _ _ => hplan).succ fun n => by rw [doWrite, if_neg hout]

/-- A writer that has no row yet is as new, and the next row is the one of the plan. -/
def RowsWritten (p : π) (columnNum : Nat) (w : PgDataWriter) : Prop :=
  (∃ k, Holds (List.replicate k (char "D")) w) ∧
    (columnNum ≠ 0 → w.prepared = [] → w = { size := blockSize } ∧ columnNum = engine.getResultColumns p)

theorem rowsWritten_new (p : π) : RowsWritten engine p (engine.getResultColumns p) { size := blockSize } :=
  ⟨⟨0, holds_new⟩, fun _ _ => ⟨rfl, rfl⟩⟩

theorem prepared_ne_nil {w : PgDataWriter} {k : Nat} (h : Holds (List.replicate (k + 1) (char "D")) w) : w.prepared ≠ [] := by
  intro hnil
  have htypes := h.types_prepared
  rw [hnil] at htypes
  cases htypes

theorem prepared_nil {w : PgDataWriter} (h : Holds [] w) : w.prepared = [] := by
  obtain ⟨-, -, -, hframes⟩ := h
  generalize hdata : w.data = data at hframes
  cases hframes
  rw [prepared, hdata, List.take_nil]

/-- The loop goes on with the next row of the plan, or the execution ends. -/
theorem nextRow_returns (hdefined : engine.Defined) {c : Connection π δ τ} {p : π} (h : c.Handling) (hp : c.session.plan = some p)
    {again : Nat → PgDataWriter → Action π δ τ Unit} {w : PgDataWriter} {d : Nat}
    (hagain : ∀ {c' : Connection π δ τ} {q : π} {raised : Option Nat}, c'.Handling → c'.session.plan = some q →
      engine.next raised p = .ok true q → Returns (fun n => again n w) c' (fun _ => Settled) Thrown) :
    Returns (fun n => nextRow engine (doWrite engine (n + d)) (again n) w) c (fun _ => Settled) Thrown := by
  refine (callPlan_returns (fun raised => onPlan_defined fun _ => hdefined.next raised) h hp).bind ?_
  rintro more c' ⟨h', q, db, raised, hq, hnext⟩
  cases more with
  | true => exact hagain h' hq (onPlan_ok (m := fun _ => engine.next raised) hnext)
  | false =>
    have hplan : c'.session.plan.isSome = true := by rw [hq]; rfl
    have hdone : Returns (fun n => invoke engine (doWrite engine n) n .handleExecutionDone) c' (fun _ => Settled) Thrown :=
      handleExecutionDone_returns engine hdefined h' hplan
    exact (doWrite_executing engine h' hplan w.prepared fun _ => hdone).shift d

theorem buildRow_returns (hdefined : engine.Defined) (hfit : engine.RowsFit) {c : Connection π δ τ} {p : π} (h : c.Handling)
    (hp : c.session.plan = some p) {columnNum : Nat} {w : PgDataWriter} (hw : RowsWritten engine p columnNum w)
    {again : Nat → PgDataWriter → Action π δ τ Unit} {d : Nat}
    (hagain : ∀ {c' : Connection π δ τ} {q : π} {raised : Option Nat} {w' : PgDataWriter}, c'.Handling → c'.session.plan = some q →
      engine.next raised p = .ok true q → RowsWritten engine q columnNum w' →
        Returns (fun n => again n w') c' (fun _ => Settled) Thrown) :
    Returns (fun n => buildRow engine (doWrite engine (n + d)) columnNum (again n) w) c (fun _ => Settled) Thrown := by
  obtain ⟨⟨rowNum, hholds⟩, hnew⟩ := hw
  by_cases hzero : columnNum = 0
  · simp only [buildRow, if_pos hzero]
    exact nextRow_returns engine hdefined h hp fun h' hq hnext =>
      hagain h' hq hnext ⟨⟨rowNum, hholds⟩, fun hne => absurd hzero hne⟩
  · simp only [buildRow, if_neg hzero]
    refine (currentPlan_returns hp).bind ?_
    rintro _ _ ⟨rfl, rfl⟩
    cases hdata : buildData engine.conv engine.fmt (SessionInfo.currentRow engine p columnNum) w with
    | error f =>
      exact .of_error f c (fun _ => rfl) ⟨hdefined.buildData p columnNum w f hdata, h⟩
    | ok w' =>
      obtain ⟨hrow, hflush⟩ := holds_buildData hholds hdata
      cases hfull : w'.full with
      | true =>
        simp only [hfull, if_true]
        refine (doWrite_executing engine h (by rw [hp]; rfl) w'.prepared fun hnil => ?_).shift d
        have htypes := hflush hfull
        rw [hnil] at htypes
        obtain rfl : rowNum = 0 := by
          cases rowNum with
          | zero => rfl
          | succ n => cases htypes
        obtain ⟨rfl, rfl⟩ := hnew hzero (prepared_nil hholds)
        exact absurd hfull (by simp [hfit p w' hdata])
      | false =>
        simp only [hfull, Bool.false_eq_true, if_false]
        exact nextRow_returns engine hdefined h hp fun h' hq hnext =>
          hagain h' hq hnext ⟨⟨_, hrow hfull⟩, fun _ hnil => absurd hnil (prepared_ne_nil (hrow hfull))⟩

theorem sendRows_returns (hdefined : engine.Defined) (hfit : engine.RowsFit) {rows : π → Nat}
    (hrows : ∀ raised p q, engine.next raised p = .ok true q → rows q < rows p) (k : Nat) :
    ∀ {c : Connection π δ τ} {p : π}, c.Handling → c.session.plan = some p → rows p ≤ k → ∀ {columnNum : Nat} {w : PgDataWriter},
      RowsWritten engine p columnNum w → ∀ d,
        Returns (fun n => sendRows engine (doWrite engine (n + d)) columnNum n w) c (fun _ => Settled) Thrown := by
  induction k using Nat.strong_induction_on with
  | _ k ih =>
    intro c p h hp hk columnNum w hw d
    refine Returns.succ (x := fun n => buildRow engine (doWrite engine (n + (1 + d))) columnNum
      (sendRows engine (doWrite engine (n + (1 + d))) columnNum n) w) ?_ fun n => by rw [sendRows, Nat.add_assoc]
    refine buildRow_returns engine hdefined hfit h hp hw fun {c' q raised w'} h' hq hnext hw' => ?_
    have hlt := hrows raised p q hnext
    exact ih (rows q) (by omega) h' hq le_rfl hw' (1 + d)

variable {engine}

theorem handleExecutionResult_returns (hengine : engine.Regular) {c : Connection π δ τ} (h : c.Handling)
    (hplan : c.session.plan.isSome = true) :
    Returns (fun n => handleExecutionResult engine (doWrite engine n) n) c (fun _ => Settled) Thrown := by
  obtain ⟨rows, hrows⟩ := hengine.finite
  obtain ⟨p, hp⟩ := Option.isSome_iff_exists.mp hplan
  refine (currentPlan_returns hp).bind ?_
  rintro _ _ ⟨rfl, rfl⟩
  exact sendRows_returns engine hengine.defined hengine.rowsFit hrows (rows p) h hp le_rfl (rowsWritten_new engine p) 0

theorem handleExecutionBegin_returns (hengine : engine.Regular) {c : Connection π δ τ} (h : c.Handling)
    (hplan : c.session.plan.isSome = true) :
    Returns (fun n => handleExecutionBegin engine (doWrite engine n) n) c (fun _ => Settled) Thrown := by
  obtain ⟨p, hp⟩ := Option.isSome_iff_exists.mp hplan
  refine (callPlan_returns (fun raised => onPlan_defined (hengine.defined.begin raised)) h hp).bind ?_
  rintro _ c1 ⟨h1, q, -, -, hq, -⟩
  refine (callPlan_returns (fun raised => onPlan_defined fun _ => hengine.defined.next raised) h1 hq).bind ?_
  rintro more c2 ⟨h2, q', -, -, hq', -⟩
  have hplan' : c2.session.plan.isSome = true := by rw [hq']; rfl
  cases more with
  | true => exact handleExecutionResult_returns hengine h2 hplan'
  | false => exact handleExecutionDone_returns engine hengine.defined h2 hplan'

theorem invoke_returns (hengine : engine.Regular) {c : Connection π δ τ} (h : c.Handling) {fn : Continuation}
    (hplan : fn.executes = true → c.session.plan.isSome = true) :
    Returns (fun n => invoke engine (doWrite engine n) n fn) c (fun _ => Settled) Thrown := by
  cases fn with
  | readMessageType | readLen => exact launch_returns _ h fun _ _ hop => by cases hop
  | handleExecutionBegin => exact handleExecutionBegin_returns hengine h (hplan rfl)
  | handleExecutionResult => exact handleExecutionResult_returns hengine h (hplan rfl)
  | handleExecutionDone => exact handleExecutionDone_returns engine hengine.defined h (hplan rfl)

/-- The errors of the readers: they read behind the buffer, or do not accept what they read. -/
def ReadError (f : Fault) : Prop := f = .undefined ∨ ∃ what, f = .thrown (.io what)

theorem errors_take (r : PgDataReader) (n : Nat) : Errors ReadError (r.take n) := by
  rw [PgDataReader.take]
  split
  · exact .of_error (.inl rfl)
  · exact .of_ok _

theorem errors_getNextString (r : PgDataReader) : Errors ReadError r.getNextString := by
  simp only [PgDataReader.getNextString]
  split
  · exact .of_error (.inl rfl)
  · exact .of_ok _

theorem errors_getNextShort (r : PgDataReader) : Errors ReadError r.getNextShort := (errors_take r 2).bind fun _ => .of_ok _

theorem errors_getNextInt (r : PgDataReader) : Errors ReadError r.getNextInt := (errors_take r 4).bind fun _ => .of_ok _

theorem errors_throwIO (what : String) : Errors ReadError ( throwIO what : Fallible α) := .of_error (.inr ⟨what, rfl⟩)

theorem errors_getNextStringWithLen (r : PgDataReader) : Errors ReadError r.getNextStringWithLen := by
  refine (errors_getNextInt r).bind fun x => ?_
  dsimp only
  split
  · exact errors_throwIO _
  · exact (errors_take x.2 _).bind fun _ => .of_ok _

theorem errors_readQueryInfo (block : Bytes) (len : Nat) : Errors ReadError (readQueryInfo block len) :=
  (errors_getNextString _).bind fun _ => .of_ok _

theorem errors_readParseInfo (block : Bytes) (len : Nat) : Errors ReadError (readParseInfo block len) :=
  (errors_getNextString _).bind fun _ => (errors_getNextString _).bind fun _ => (errors_getNextShort _).bind fun _ => .of_ok _

theorem errors_readColumnDescribeInfo (block : Bytes) (len : Nat) : Errors ReadError (readColumnDescribeInfo block len) :=
  ((errors_take _ 1).bind fun _ => .of_ok _).bind fun x => (errors_getNextString x.2).bind fun _ => .of_ok _

theorem errors_readParamModes (n : Nat) (r : PgDataReader) : Errors ReadError (readParamModes n r) := by
  induction n generalizing r with
  | zero => exact .of_ok _
  | succ n ih =>
    refine (errors_getNextShort r).bind fun x => ?_
    dsimp only
    split
    · exact (ih x.2).bind fun _ => .of_ok _
    · exact errors_throwIO _

theorem errors_readParamValues (n : Nat) (r : PgDataReader) : Errors ReadError (readParamValues n r) := by
  induction n generalizing r with
  | zero => exact .of_ok _
  | succ n ih => exact (errors_getNextStringWithLen r).bind fun x => (ih x.2).bind fun _ => .of_ok _

theorem errors_checkParamNumber (what : String) (iExpectNum : Int) (n : Nat) : Errors ReadError (checkParamNumber what iExpectNum n) := by
  rw [checkParamNumber]
  split
  · exact errors_throwIO _
  · exact .of_ok _

theorem errors_readBindParam (block : Bytes) (len n : Nat) : Errors ReadError (readBindParam block len n) :=
  (errors_getNextString _).bind fun _ => (errors_getNextString _).bind fun _ => (errors_getNextShort _).bind fun x =>
    (errors_checkParamNumber _ x.1 n).bind fun _ => (errors_readParamModes n x.2).bind fun y => (errors_getNextShort y.2).bind fun z =>
      (errors_checkParamNumber _ z.1 n).bind fun _ => (errors_readParamValues n z.2).bind fun _ => .of_ok _

theorem errors_readOptions (fuel : Nat) (r : PgDataReader) : Errors ReadError (readOptions fuel r) := by
  induction fuel generalizing r with
  | zero => exact .of_ok _
  | succ fuel ih =>
    rw [readOptions]
    split
    · refine (errors_getNextString r).bind fun x => ?_
      dsimp only
      split
      · exact .of_ok _
      · exact (errors_getNextString x.2).bind fun y => ih y.2
    · exact .of_ok _

theorem errors_readStartup (block : Bytes) (len : Nat) : Errors ReadError (readStartup block len) := by
  refine (errors_getNextInt _).bind fun x => ?_
  dsimp only
  split
  · exact (errors_getNextInt x.2).bind fun y => (errors_getNextInt y.2).bind fun _ => errors_throwIO _
  · split
    · exact .of_ok _
    · split
      · exact errors_throwIO _
      · exact (errors_readOptions _ x.2).bind fun _ => .of_ok _

theorem errors_cancelTarget (block : Bytes) (len : Nat) : Errors ReadError (cancelTarget block len) := by
  refine (errors_getNextInt _).bind fun x => ?_
  dsimp only
  split
  · exact (errors_getNextInt x.2).bind fun y => (errors_getNextInt y.2).bind fun _ => .of_ok _
  · exact .of_ok _

theorem catchable_of_readable {x : Fallible α} (h : Errors ReadError x) (hx : x ≠ .error .undefined) : Errors Fault.Catchable x := by
  intro f hf
  obtain rfl | ⟨what, rfl⟩ := h f hf
  · exact absurd hf hx
  · exact Fault.catchable_io what

theorem modify_handling (g : SessionInfo π τ → SessionInfo π τ) {c : Connection π δ τ} (h : c.Handling)
    (hresult : (g c.session).result = c.session.result) (hplan : (g c.session).plan = c.session.plan)
    {R : Fault → Connection π δ τ → Prop} :
    Returns (fun _ => (modify fun c => { c with session := g c.session } : Action π δ τ Unit)) c
      (fun _ c' => c'.Handling ∧ c'.session.plan = c.session.plan) R :=
  .of_ok () { c with session := g c.session } (fun _ => rfl) ⟨h.of_session (hresult ▸ h.result), hplan⟩

theorem onSession_regular {m : SessionInfo.Handler π τ α} {Q : α → SessionInfo π τ → Prop}
    (hm : Triple (fun s => s.result.isSome = true) m Q SessionInfo.Throws) (hq : ∀ a s, Q a s → s.result.isSome = true)
    {c : Connection π δ τ} (h : c.Handling) :
    Returns (fun _ => onSession m) c (fun a c' => c'.Handling ∧ Q a c'.session) Thrown :=
  onSession_returns hm hq (fun _ _ h => h) h h.result

theorem read_returns {x : Fallible α} (hx : Errors Fault.Catchable x) {c : Connection π δ τ} (h : c.Handling) :
    Returns (fun _ => onSession (SessionInfo.liftFallible x)) c (fun a c' => c = c' ∧ x = .ok a) Thrown := by
  cases x with
  | ok a => exact .of_ok a c (fun _ => rfl) ⟨rfl, rfl⟩
  | error f => exact .of_error f c (fun _ => rfl) ⟨hx f rfl, h⟩

theorem parse_returns (hengine : engine.Regular) (sql : Bytes) {c : Connection π δ τ} (h : c.Handling) :
    Returns (fun _ => onSession (SessionInfo.parse engine sql)) c (fun _ c' => c'.Handling) Thrown :=
  (onSession_regular (SessionInfo.parse_regular hengine.defined sql) (fun _ _ h => h) h).conseq (fun _ _ h => h.1) fun _ _ h => h

theorem resolve_returns (hengine : engine.Regular) {c : Connection π δ τ} (h : c.Handling) :
    Returns (fun _ => onSession (SessionInfo.resolve engine)) c (fun _ c' => c'.Handling ∧ c'.session.plan.isSome = true) Thrown :=
  (onSession_regular (SessionInfo.resolve_regular hengine.defined) (fun _ _ h => h.1) h).conseq (fun _ _ h => ⟨h.1, h.2.2⟩) fun _ _ h => h

theorem describe_returns (hengine : engine.Regular) (p : π) (columnNum : Nat) {c : Connection π δ τ} (h : c.Handling) :
    Returns (fun _ => describe engine p columnNum) c (fun out c' => out ≠ [] ∧ c = c') Thrown := by
  refine (read_returns (hengine.defined.describe p columnNum) h).bind ?_
  rintro out _ ⟨rfl, -⟩
  by_cases hout : out = []
  · simp only [if_pos hout]
    exact .of_error _ c (fun _ => rfl) ⟨Fault.catchable_io _, h⟩
  · simp only [if_neg hout]
    exact .of_ok out c (fun _ => rfl) ⟨hout, rfl⟩

theorem readMessageType_returns {c : Connection π δ τ} (h : c.Handling) {R : Fault → Connection π δ τ → Prop} :
    Returns (fun _ => readMessageType) c (fun _ => Settled) R :=
  launch_returns _ h fun _ _ hop => by cases hop

theorem handleParse_returns (hengine : engine.Regular) {c : Connection π δ τ} (h : c.Handling) {block : Bytes} {len : Nat}
    (hread : readParseInfo block len ≠ .error .undefined) :
    Returns (fun _ => handleParse engine block len) c (fun _ => Settled) Thrown := by
  refine (read_returns (catchable_of_readable (errors_readParseInfo block len) hread) h).bind ?_
  rintro x _ ⟨rfl, -⟩
  refine (parse_returns hengine x.1 h).bind fun _ c1 h1 => ?_
  refine (onSession_regular (SessionInfo.onResult_regular fun _ _ _ h => by cases h) (fun _ _ hs => hs) h1).bind fun r c2 h2 => ?_
  have hrest : ∀ {c : Connection π δ τ}, c.Handling → Returns (fun _ => (do
      modify fun c => { c with session := { c.session with parsed := true, binded := false } }
      readMessageType : Action π δ τ Unit)) c (fun _ => Settled) Thrown := by
    intro c h
    exact (modify_handling (fun s => { s with parsed := true, binded := false }) h rfl rfl).bind fun _ c' h' => readMessageType_returns h'.1
  by_cases hnum : x.2 = r.params
  · simpa only [hnum, ne_eq, not_true_eq_false, if_false] using hrest h2.1
  · simp only [ne_eq, hnum, not_false_eq_true, if_true]
    exact .of_error _ c2 (fun _ => rfl) ⟨Fault.catchable_parseError _, h2.1⟩

theorem handleQuery_returns (hengine : engine.Regular) {c : Connection π δ τ} (h : c.Handling) {block : Bytes} {len : Nat}
    (hread : readQueryInfo block len ≠ .error .undefined) :
    Returns (fun n => handleQuery engine n block len) c (fun _ => Settled) Thrown := by
  refine (read_returns (catchable_of_readable (errors_readQueryInfo block len) hread) h).bind ?_
  rintro sql _ ⟨rfl, -⟩
  refine (parse_returns hengine sql h).bind fun _ c1 h1 => ?_
  refine (resolve_returns hengine h1).bind fun _ c2 h2 => ?_
  refine (modify_handling (fun s => { s with parsed := false, binded := false }) h2.1 rfl rfl).bind fun _ c3 h3 => ?_
  obtain ⟨h3, hplan⟩ := h3
  rw [← hplan] at h2
  obtain ⟨p, hp⟩ := Option.isSome_iff_exists.mp h2.2
  refine (currentPlan_returns hp).bind ?_
  rintro _ _ ⟨rfl, rfl⟩
  by_cases hzero : 0 < engine.getResultColumns p
  · simp only [hzero, if_true]
    refine (describe_returns hengine p _ h3).bind ?_
    rintro out _ ⟨hout, rfl⟩
    exact doWrite_executing engine h3 h2.2 out fun hnil => absurd hnil hout
  · simp only [hzero, if_false]
    exact handleExecutionBegin_returns hengine h3 h2.2

theorem handleBind_returns (hengine : engine.Regular) {c : Connection π δ τ} (h : c.Handling) {block : Bytes} {len : Nat}
    (hread : ∀ r, c.session.result = some r → readBindParam block len r.params ≠ .error .undefined) :
    Returns (fun _ => handleBind engine block len) c (fun _ => Settled) Thrown := by
  obtain ⟨r, hr⟩ := Option.isSome_iff_exists.mp h.result
  have hmark : Triple (fun s : SessionInfo π τ => s = c.session) (SessionInfo.onResult (modify ParseResult.setMark))
      (fun _ s => ∃ r', s.result = some r' ∧ r'.params = r.params) SessionInfo.Throws := by
    rintro _ rfl
    simp only [SessionInfo.onResult, hr]
    exact ⟨_, rfl, rfl⟩
  have hsome : ∀ {r0 : Option (ParseResult τ)}, (∃ r', r0 = some r' ∧ r'.params = r.params) → r0.isSome = true := by
    rintro _ ⟨r', rfl, -⟩
    rfl
  refine (onSession_returns hmark (fun _ _ => hsome) (fun _ _ h => h) h rfl).bind ?_
  rintro _ c1 ⟨h1, r1, hr1, hparams⟩
  have hget : Triple (fun s : SessionInfo π τ => s = c1.session) (SessionInfo.onResult get)
      (fun r' s => s = c1.session ∧ r' = r1) SessionInfo.Throws := by
    rintro _ rfl
    simp only [SessionInfo.onResult, hr1]
    exact ⟨by rw [← hr1], rfl⟩
  refine (onSession_returns hget (fun _ _ hs => by rw [hs.1, hr1]; rfl) (fun _ _ h => h) h1 rfl).bind ?_
  rintro r2 c2 ⟨h2, -, rfl⟩
  have hread' : readBindParam block len r2.params ≠ .error .undefined := by
    rw [hparams]
    exact hread r hr
  refine (read_returns (catchable_of_readable (errors_readBindParam block len _) hread') h2).bind ?_
  rintro params _ ⟨rfl, -⟩
  refine (onSession_regular (SessionInfo.onResult_regular fun _ _ _ hres =>
    (ParseResult.bindAll_catchable engine 0 params).error trivial hres) (fun _ _ hs => hs) h2).bind fun _ c3 h3 => ?_
  refine (modify_handling (fun s => { s with binded := true }) h3.1 rfl rfl).bind fun _ c4 h4 => ?_
  exact (resolve_returns hengine h4.1).bind fun _ c5 h5 => readMessageType_returns h5.1

theorem handleDescription_returns (hengine : engine.Regular) {c : Connection π δ τ} (h : c.Handling) {block : Bytes} {len : Nat}
    (hread : readColumnDescribeInfo block len ≠ .error .undefined) :
    Returns (fun n => handleDescription engine n block len) c (fun _ => Settled) Thrown := by
  refine (read_returns (catchable_of_readable (errors_readColumnDescribeInfo block len) hread) h).bind ?_
  rintro _ _ ⟨rfl, -⟩
  refine (get_returns c).bind ?_
  rintro _ _ ⟨rfl, rfl⟩
  cases hp : c.session.plan with
  | none => exact readMessageType_returns h
  | some p =>
    dsimp only
    by_cases hzero : engine.getResultColumns p = 0
    · simp only [hzero, if_true]
      exact readMessageType_returns h
    · simp only [hzero, if_false]
      refine (describe_returns hengine p _ h).bind ?_
      rintro out _ ⟨-, rfl⟩
      exact doWrite_returns engine h out (.inl rfl)

theorem handleStartup_returns {c : Connection π δ τ} (h : c.Handling) {block : Bytes} {len : Nat}
    (htarget : cancelTarget block len ≠ .error .undefined) (hread : readStartup block len ≠ .error .undefined)
    (hsession : ∀ i, cancelTarget block len = .ok (some i) → i < c.sessions) :
    Returns (fun n => handleStartup engine n block len) c (fun _ => Settled) Thrown := by
  refine (read_returns (catchable_of_readable (errors_cancelTarget block len) htarget) h).bind ?_
  rintro target _ ⟨rfl, hok⟩
  have hcancel : Returns (fun _ => cancelRequested target) c (fun _ c' => c'.Handling) Thrown := by
    cases target with
    | none => exact .of_ok () c (fun _ => rfl) h
    | some i =>
      refine (get_returns c).bind ?_
      rintro _ _ ⟨rfl, rfl⟩
      simp only [not_le.mpr (hsession i hok), if_false]
      by_cases hown : i = c.session.index
      · simp only [hown, if_true]
        exact .of_ok () { c with session := { c.session with terminate := true } } (fun _ => rfl) (h.of_session h.result)
      · simp only [hown, if_false]
        exact .of_ok () c (fun _ => rfl) h
  refine hcancel.bind fun _ c1 h1 => ?_
  refine (read_returns (catchable_of_readable (errors_readStartup block len) hread) h1).bind ?_
  rintro action _ ⟨rfl, -⟩
  cases action with
  | ssl => exact doWrite_returns engine h1 _ (.inr rfl)
  | normal =>
    refine (get_returns c1).bind ?_
    rintro _ _ ⟨rfl, rfl⟩
    exact doWrite_returns engine h1 _ (.inl rfl)

/-- The message can be read: it does not end behind the buffer, a cancel request names a session object, and
an Execute finds a plan. -/
def Readable (c : Connection π δ τ) (block : Bytes) (len : Nat) : Prop :=
  let type := c.session.qtype
  (type = 0 → cancelTarget block len ≠ .error .undefined ∧ readStartup block len ≠ .error .undefined ∧
    ∀ i, cancelTarget block len = .ok (some i) → i < c.sessions) ∧
  (type = char "Q" → readQueryInfo block len ≠ .error .undefined) ∧
  (type = char "P" → readParseInfo block len ≠ .error .undefined) ∧
  (type = char "B" → ∀ r, c.session.result = some r → readBindParam block len r.params ≠ .error .undefined) ∧
  (type = char "D" → readColumnDescribeInfo block len ≠ .error .undefined) ∧
  (type = char "E" → c.session.plan ≠ none)

theorem handler_returns (hengine : engine.Regular) {c : Connection π δ τ} (h : c.Handling) {block : Bytes} {len : Nat}
    (hread : c.Readable block len) {x : Nat → Action π δ τ Unit} (hx : ∀ n, handler engine n c.session.qtype block len = some (x n)) :
    Returns x c (fun _ => Settled) Thrown := by
  obtain ⟨hstartup, hquery, hparse, hbind, hdescribe, hexecute⟩ := hread
  have hcases : ∀ {y : Nat → Action π δ τ Unit}, (∀ n, handler engine n c.session.qtype block len = some (y n)) →
      Returns y c (fun _ => Settled) Thrown → Returns x c (fun _ => Settled) Thrown := by
    intro y hy hreturns
    obtain rfl : x = y := funext fun n => Option.some.inj ((hx n).symm.trans (hy n))
    exact hreturns
  by_cases h0 : c.session.qtype = 0
  · obtain ⟨htarget, hread, hsession⟩ := hstartup h0
    exact hcases (fun n => by rw [handler, if_pos h0]) (handleStartup_returns h htarget hread hsession)
  by_cases hS : c.session.qtype = char "S"
  · exact hcases (y := handleSync engine) (fun n => by rw [handler, if_neg h0, if_pos hS]) (doWrite_returns engine h _ (.inl rfl))
  by_cases hQ : c.session.qtype = char "Q"
  · exact hcases (fun n => by rw [handler, if_neg h0, if_neg hS, if_pos hQ]) (handleQuery_returns hengine h (hquery hQ))
  by_cases hP : c.session.qtype = char "P"
  · exact hcases (fun n => by rw [handler, if_neg h0, if_neg hS, if_neg hQ, if_pos hP]) (handleParse_returns hengine h (hparse hP))
  by_cases hB : c.session.qtype = char "B"
  · exact hcases (fun n => by rw [handler, if_neg h0, if_neg hS, if_neg hQ, if_neg hP, if_pos hB])
      (handleBind_returns hengine h (hbind hB))
  by_cases hD : c.session.qtype = char "D"
  · exact hcases (fun n => by rw [handler, if_neg h0, if_neg hS, if_neg hQ, if_neg hP, if_neg hB, if_pos hD])
      (handleDescription_returns hengine h (hdescribe hD))
  by_cases hE : c.session.qtype = char "E"
  · exact hcases (y := handleExecution engine)
      (fun n => by rw [handler, if_neg h0, if_neg hS, if_neg hQ, if_neg hP, if_neg hB, if_neg hD, if_pos hE])
      (handleExecutionBegin_returns hengine h (Option.isSome_iff_ne_none.mpr (hexecute hE)))
  · have hnone : handler engine 0 c.session.qtype block len = none := by
      rw [handler, if_neg h0, if_neg hS, if_neg hQ, if_neg hP, if_neg hB, if_neg hD, if_neg hE]
    rw [hx 0] at hnone
    cases hnone

theorem buildException_ne_nil {e : Exn} (h : (Fault.thrown e).Catchable) (sync : Bool) :
    buildException blockSize (SessionInfo.what e) (SessionInfo.startPos e) sync ≠ [] := by
  have hlen : (intText (SessionInfo.startPos e)).length ≤ 11 := h
  exact PostgresProtocol.buildException_ne_nil _ (by omega) sync

/-- What the `try` of `readData` leaves: something has been started, or nothing. -/
def Attempted : Option Bytes → Connection π δ τ → Prop
  | none, c => c.Handling
  | some out, c => if out = [] then c.Settled else c.Handling

theorem attempt_returns {x : Nat → Action π δ τ Unit} {c : Connection π δ τ} (h : Returns x c (fun _ => Settled) Thrown)
    {R : Fault → Connection π δ τ → Prop} : Returns (fun n => attempt (x n)) c Attempted R := by
  have hbody : Returns (fun n => (do
      x n
      return some [] : Action π δ τ (Option Bytes))) c Attempted Thrown :=
    h.bind fun _ c' hc' => .of_ok (some []) c' (fun _ => rfl) hc'
  refine hbody.tryCatch fun f c' hf => ?_
  obtain ⟨hcatch, h'⟩ := hf
  cases f with
  | undefined => exact hcatch.elim
  | thrown e =>
    refine (get_returns c').bind ?_
    rintro _ _ ⟨rfl, rfl⟩
    by_cases h0 : c'.session.qtype = 0
    · simp only [h0, if_true]
      exact .of_ok none c' (fun _ => rfl) h'
    · simp only [h0, if_false]
      refine .of_ok (some _) c' (fun _ => rfl) ?_
      rw [Attempted, if_neg (buildException_ne_nil hcatch _)]
      exact h'

/-- The handler asks for the end of the session exactly when nothing has been started. -/
def Handled (ok : Bool) (c : Connection π δ τ) : Prop := if ok then c.Settled else c.Handling

/-- Whether a message is known does not depend on the fuel. -/
theorem handler_none (type : UInt8) (block : Bytes) (len n m : Nat) (h : handler engine n type block len = none) :
    handler engine m type block len = none := by
  simp only [handler] at h ⊢
  split_ifs at h ⊢
  rfl

theorem dataHandler_returns (hengine : engine.Regular) {c : Connection π δ τ} (h : c.Handling) {block : Bytes} {len : Nat}
    (hread : c.Readable block len) {R : Fault → Connection π δ τ → Prop} :
    Returns (fun n => dataHandler engine n block len) c Handled R := by
  refine (get_returns c).bind ?_
  rintro _ _ ⟨rfl, rfl⟩
  by_cases hnone : handler engine 0 c.session.qtype block len = none
  · simp only [handler_none _ block len 0 _ hnone]
    exact .of_ok false c (fun _ => rfl) h
  · have hsome : ∀ n, ∃ x, handler engine n c.session.qtype block len = some x := by
      intro n
      cases hn : handler engine n c.session.qtype block len with
      | none => exact absurd (handler_none _ block len n 0 hn) hnone
      | some x => exact ⟨x, rfl⟩
    choose x hx using hsome
    simp only [hx]
    refine (attempt_returns (handler_returns hengine h hread hx)).bind fun out c' hout => ?_
    cases out with
    | none => exact .of_ok false c' (fun _ => rfl) hout
    | some out =>
      by_cases hnil : out = []
      · simp only [respond, hnil, if_true]
        rw [Attempted, if_pos hnil] at hout
        exact .of_ok true c' (fun _ => rfl) hout
      · simp only [respond, hnil, if_false]
        rw [Attempted, if_neg hnil] at hout
        exact (doWrite_returns engine hout out (.inl rfl)).bind fun _ c'' hc'' => .of_ok true c'' (fun _ => rfl) hc''

theorem finish_returns {ok : Bool} {c : Connection π δ τ} (h : Handled ok c) {R : Fault → Connection π δ τ → Prop} :
    Returns (fun _ => finish ok) c (fun _ => Settled) R := by
  cases ok with
  | true => exact .of_ok () c (fun _ => rfl) h
  | false => exact end_returns h.outstanding h.free

theorem readData_returns (hengine : engine.Regular) {c : Connection π δ τ} (h : c.Handling) {block : Bytes} {len : Nat}
    (hread : len = 0 → c.Readable block 0) {R : Fault → Connection π δ τ → Prop} :
    Returns (fun n => readData engine n block len) c (fun _ => Settled) R := by
  by_cases hlen : len = 0
  · simp only [readData, hlen, if_true]
    exact (dataHandler_returns hengine h (hread hlen)).bind fun ok c' hok => finish_returns hok
  · simp only [readData, hlen, if_false]
    exact launch_returns _ h fun _ _ hop => by cases hop

/-- The event does not lead to anything undefined. -/
def Allowed (c : Connection π δ τ) : Completion δ → Prop
  | .completes i false a =>
    match c.outstanding[i]? with
    | some .accept => a.parseBlock = true → a.networkBlock = true
    | some (.read len .data) => c.Readable a.block len
    | some (.read _ .length) => ofBig (a.block.take 4) = 4 → c.Readable a.block 0
    | _ => True
  | _ => True

theorem readHandler_returns (hengine : engine.Regular) {c : Connection π δ τ} (h : c.Handling) {block : Bytes} {len : Nat}
    {fn : ReadHandler} (hdata : fn = .data → c.Readable block len)
    (hlength : fn = .length → ofBig (block.take 4) = 4 → c.Readable block 0) {R : Fault → Connection π δ τ → Prop} :
    Returns (fun n => readHandler engine n block len fn) c Handled R := by
  cases fn with
  | data => exact dataHandler_returns hengine h (hdata rfl)
  | messageType =>
    refine (modify_handling (fun s => { s with qtype := block.headD 0 }) h rfl rfl).bind fun _ c' h' => ?_
    by_cases htype : block.headD 0 = char "X" ∨ block.headD 0 = 0
    · simp only [htype, if_true]
      exact .of_ok false c' (fun _ => rfl) h'.1
    · simp only [htype, if_false]
      have hlaunch : Returns (fun _ => readLen) c' (fun _ => Settled) R := launch_returns _ h'.1 fun _ _ hop => by cases hop
      exact hlaunch.bind fun _ c'' hc'' => .of_ok true c'' (fun _ => rfl) hc''
  | length =>
    simp only [readHandler, lengthHandler]
    by_cases hshort : ofBig (block.take 4) < 4
    · simp only [hshort, if_true]
      exact .of_ok false c (fun _ => rfl) h
    by_cases hlong : blockSize < ofBig (block.take 4) - 4
    · simp only [hshort, hlong, if_true, if_false]
      exact .of_ok false c (fun _ => rfl) h
    · simp only [hshort, hlong, if_false]
      exact (readData_returns hengine h fun hzero => hlength rfl (by omega)).bind fun _ c' hc' => .of_ok true c' (fun _ => rfl) hc'

theorem accepted_returns {c : Connection π δ τ} (hout : c.outstanding = []) (hfree : c.free = 0) (hsocket : c.socket = true)
    {failed : Bool} {a : Arrival} (hpool : failed = false → a.parseBlock = true → a.networkBlock = true)
    {R : Fault → Connection π δ τ → Prop} : Returns (fun _ => accepted failed a) c (fun _ => Settled) R := by
  cases failed with
  | true => exact end_returns hout hfree
  | false =>
    have hstart : Returns (fun _ => start a.parseBlock a.networkBlock) c (fun _ => Settled)
        (fun f c' => (∃ e, f = .thrown e) ∧ c'.outstanding = [] ∧ c'.free = 0) := by
      refine (modify_returns _ c).bind ?_
      rintro _ _ rfl
      cases hparse : a.parseBlock with
      | false => exact .of_error _ _ (fun _ => rfl) ⟨⟨_, rfl⟩, hout, hfree⟩
      | true =>
        rw [hpool rfl hparse]
        refine (modify_returns _ _).bind ?_
        rintro _ _ rfl
        have h' : Handling ({ c with session := { c.session with qtype := 0, result := some {} }, buffer := true } : Connection π δ τ) :=
          ⟨hout, hfree, hsocket, rfl, rfl⟩
        exact launch_returns (.read 4 .length) h' fun _ _ hop => by cases hop
    refine hstart.tryCatch fun f c' hf => ?_
    obtain ⟨⟨e, rfl⟩, hout', hfree'⟩ := hf
    exact end_returns hout' hfree'

theorem settled_of_outstanding {c c' : Connection π δ τ} (h : c.Settled) (hout : c'.outstanding = c.outstanding)
    (hfree : c'.free = c.free) (hsupports : ∀ op, c.Supports op → c'.Supports op) : c'.Settled := by
  refine ⟨?_, fun op hop => hsupports op (h.supports op (hout ▸ hop))⟩
  rw [OneContinuation, hout, hfree]
  exact h.one

theorem Settled.outstanding {c : Connection π δ τ} (h : c.Settled) {i : Nat} {op : Operation} (hop : c.outstanding[i]? = some op) :
    c.outstanding.eraseIdx i = [] ∧ c.free = 0 ∧ c.Supports op := by
  obtain ⟨hone, hsupports⟩ := h
  have hmem : op ∈ c.outstanding := List.mem_of_getElem? hop
  have hi : i < c.outstanding.length := (List.getElem?_eq_some_iff.mp hop).1
  rw [OneContinuation] at hone
  refine ⟨?_, by omega, hsupports op hmem⟩
  rw [← List.length_eq_zero_iff, List.length_eraseIdx, if_pos hi]
  omega

theorem complete_returns (hengine : engine.Regular) {c : Connection π δ τ} (hout : c.outstanding = []) (hfree : c.free = 0)
    {op : Operation} (hop : c.Supports op) {failed : Bool} {a : Arrival}
    (haccept : op = .accept → failed = false → a.parseBlock = true → a.networkBlock = true)
    (hdata : ∀ len, op = .read len .data → failed = false → c.Readable a.block len)
    (hlength : ∀ len, op = .read len .length → failed = false → ofBig (a.block.take 4) = 4 → c.Readable a.block 0)
    {R : Fault → Connection π δ τ → Prop} : Returns (fun n => complete engine n op failed a) c (fun _ => Settled) R := by
  have hhandling : op ≠ .accept → c.Handling := fun hne => ⟨hout, hfree, hop.socket, hop.buffer hne, hop.result hne⟩
  cases op with
  | accept => exact accepted_returns hout hfree hop.socket (haccept rfl)
  | read len fn =>
    cases failed with
    | true => exact end_returns hout hfree
    | false =>
      refine (readHandler_returns hengine (hhandling (by simp)) (fun h => ?_) fun h => ?_).bind fun ok c' hok => finish_returns hok
      · exact hdata len (by rw [h]) rfl
      · exact hlength len (by rw [h]) rfl
  | write out fn =>
    cases failed with
    | true => exact end_returns hout hfree
    | false => exact written_returns engine (invoke_returns hengine (hhandling (by simp)) (hop.plan out fn rfl))

/-- The handling of an event ends, and it ends with one continuation. -/
theorem handle_returns (hengine : engine.Regular) {c : Connection π δ τ} (h : c.Settled) {e : Completion δ} (he : c.Allowed e)
    {R : Fault → Connection π δ τ → Prop} : Returns (fun n => handle engine n e) c (fun _ => Settled) R := by
  cases e with
  | completes i failed a =>
    refine (get_returns c).bind ?_
    rintro _ _ ⟨rfl, rfl⟩
    cases hop : c.outstanding[i]? with
    | none => exact .of_ok () c (fun _ => rfl) h
    | some op =>
      obtain ⟨hout, hfree, hsupports⟩ := h.outstanding hop
      have hset : Returns (fun _ => (set { c with outstanding := c.outstanding.eraseIdx i, raises := a.raises } : Action π δ τ Unit)) c
          (fun _ c' => c' = { c with outstanding := c.outstanding.eraseIdx i, raises := a.raises }) R :=
        .of_ok () _ (fun _ => rfl) rfl
      refine hset.bind ?_
      rintro _ _ rfl
      refine complete_returns hengine (c := { c with outstanding := c.outstanding.eraseIdx i, raises := a.raises }) hout hfree
        ⟨hsupports.socket, hsupports.buffer, hsupports.result, hsupports.plan⟩ ?_ ?_ ?_
      · rintro rfl rfl
        simpa [Allowed, hop] using he
      · rintro len rfl rfl
        have hread : c.Readable a.block len := by simpa [Allowed, hop] using he
        exact hread
      · rintro len rfl rfl
        have hread : ofBig (a.block.take 4) = 4 → c.Readable a.block 0 := by simpa [Allowed, hop] using he
        exact hread
  | allocSession =>
    refine (get_returns c).bind ?_
    rintro _ _ ⟨rfl, rfl⟩
    by_cases hfree : 0 < c.free
    · simp only [hfree, if_true]
      have hone := h.one
      rw [OneContinuation] at hone
      have hout : c.outstanding = [] := List.length_eq_zero_iff.mp (by omega)
      refine .of_ok () _ (fun _ => rfl) ⟨?_, ?_⟩
      · simp only [OneContinuation, hout, List.nil_append, List.length_singleton]
        omega
      · simp only [hout, List.nil_append, List.mem_singleton]
        rintro _ rfl
        exact ⟨rfl, fun hne => absurd rfl hne, fun hne => absurd rfl hne, fun _ _ hop => by cases hop⟩
    · simp only [hfree, if_false]
      exact .of_ok () c (fun _ => rfl) h
  | cancel => exact .of_ok () _ (fun _ => rfl) (settled_of_outstanding h rfl rfl fun _ hs => ⟨hs.socket, hs.buffer, hs.result, hs.plan⟩)
  | opened => exact .of_ok () _ (fun _ => rfl) (settled_of_outstanding h rfl rfl fun _ hs => ⟨hs.socket, hs.buffer, hs.result, hs.plan⟩)
  | commit db => exact .of_ok () _ (fun _ => rfl) (settled_of_outstanding h rfl rfl fun _ hs => ⟨hs.socket, hs.buffer, hs.result, hs.plan⟩)

/-- Something undefined is met. -/
def Crashes (x : Action π δ τ α) (c : Connection π δ τ) : Prop := ∃ c', x.run c = some (.error .undefined, c')

theorem Crashes.bind {β : Type} {x : Action π δ τ α} {c : Connection π δ τ} (h : Crashes x c) (f : α → Action π δ τ β) :
    Crashes (x >>= f) c := by
  obtain ⟨c', hc'⟩ := h
  exact ⟨c', by rw [bind_run, hc']⟩

theorem Crashes.of_ok {β : Type} {x : Action π δ τ α} (a : α) {c : Connection π δ τ} (c' : Connection π δ τ) (h : x.run c = some (.ok a, c'))
    {f : α → Action π δ τ β} (hf : Crashes (f a) c') : Crashes (x >>= f) c := by
  obtain ⟨c'', hc''⟩ := hf
  exact ⟨c'', by rw [bind_run, h]; exact hc''⟩

theorem Crashes.attempt {x : Action π δ τ Unit} {c : Connection π δ τ} (h : Crashes x c) : Crashes (attempt x) c := by
  obtain ⟨c', hc'⟩ := h.bind fun _ => (return some [] : Action π δ τ (Option Bytes))
  refine ⟨c', ?_⟩
  have hrun := tryCatch_run (do
    x
    return some [] : Action π δ τ (Option Bytes)) failed c
  rw [hc'] at hrun
  exact hrun

theorem crashes_read {x : Fallible α} (h : x = .error .undefined) (c : Connection π δ τ) :
    Crashes (onSession (SessionInfo.liftFallible x)) c := by
  subst h
  exact ⟨c, rfl⟩

theorem errors_cancelTarget_undefined (block : Bytes) (len : Nat) : Errors (· = .undefined) (cancelTarget block len) := by
  have hint : ∀ r : PgDataReader, Errors (· = Fault.undefined) r.getNextInt := by
    intro r
    have htake : Errors (· = Fault.undefined) (r.take 4) := by
      rw [PgDataReader.take]
      split
      · exact .of_error rfl
      · exact .of_ok _
    exact htake.bind fun _ => .of_ok _
  refine (hint _).bind fun x => ?_
  dsimp only
  split
  · exact (hint x.2).bind fun y => (hint y.2).bind fun _ => .of_ok _
  · exact .of_ok _

theorem crashes_startup {c : Connection π δ τ} {block : Bytes} {len n : Nat}
    (h : ¬ (cancelTarget block len ≠ .error .undefined ∧ readStartup block len ≠ .error .undefined ∧
      ∀ i, cancelTarget block len = .ok (some i) → i < c.sessions)) : Crashes (handleStartup engine n block len) c := by
  cases htarget : cancelTarget block len with
  | error f =>
    refine (crashes_read ?_ c).bind _
    rw [htarget, errors_cancelTarget_undefined block len f htarget]
  | ok target =>
    refine Crashes.of_ok target c (by rw [htarget]; rfl) ?_
    have hread : readStartup block len = .error .undefined ∨ ∃ i, target = some i ∧ c.sessions ≤ i := by
      by_contra hne
      obtain ⟨hread, hindex⟩ := not_or.mp hne
      refine h ⟨fun herror => ?_, hread, fun i hi => ?_⟩
      · rw [htarget] at herror
        cases herror
      rw [htarget] at hi
      by_contra hlt
      exact hindex ⟨i, Except.ok.inj hi, by omega⟩
    cases target with
    | none =>
      obtain hread | ⟨i, hi, -⟩ := hread
      · exact Crashes.of_ok () c rfl ((crashes_read hread c).bind _)
      · cases hi
    | some i =>
      by_cases hindex : c.sessions ≤ i
      · refine Crashes.bind ⟨c, ?_⟩ _
        change (if c.sessions ≤ i then undefined else _ : Action π δ τ Unit).run c = _
        rw [if_pos hindex]
        rfl
      · obtain hread | ⟨i', hi', hle⟩ := hread
        · have hcancel : ∃ c', (cancelRequested (some i) : Action π δ τ Unit).run c = some (.ok (), c') := by
            change ∃ c', (if c.sessions ≤ i then undefined else _ : Action π δ τ Unit).run c = some (.ok (), c')
            rw [if_neg hindex]
            split
            · exact ⟨_, rfl⟩
            · exact ⟨c, rfl⟩
          obtain ⟨c', hc'⟩ := hcancel
          exact Crashes.of_ok () c' hc' ((crashes_read hread c').bind _)
        · cases hi'
          exact absurd hle hindex

theorem crashes_bind {c : Connection π δ τ} {r : ParseResult τ} (hr : c.session.result = some r) {block : Bytes} {len : Nat}
    (h : readBindParam block len r.params = .error .undefined) : Crashes (handleBind engine block len) c := by
  refine Crashes.of_ok () { c with session := { c.session with result := some r.setMark } } ?_ ?_
  · simp only [onSession, SessionInfo.onResult, hr]
    rfl
  · refine Crashes.of_ok r.setMark { c with session := { c.session with result := some r.setMark } } rfl ?_
    exact (crashes_read h _).bind _

/-- What cannot be read crashes the server. -/
theorem crashes_handler (engine : Engine π δ τ) (n : Nat) {c : Connection π δ τ} {block : Bytes} {len : Nat} (h : ¬ c.Readable block len) :
    ∃ x, handler engine n c.session.qtype block len = some x ∧ Crashes x c := by
  simp only [Readable, not_and_or, Classical.not_imp, not_forall, not_not, ne_eq] at h
  obtain ⟨h0, h⟩ | ⟨hQ, h⟩ | ⟨hP, h⟩ | ⟨hB, r, hr, h⟩ | ⟨hD, h⟩ | ⟨hE, h⟩ := h
  · refine ⟨_, by rw [handler, if_pos h0], crashes_startup ?_⟩
    simpa only [not_and_or, Classical.not_imp, not_forall, not_not, ne_eq] using h
  · rw [hQ]
    exact ⟨_, rfl, (crashes_read h c).bind _⟩
  · rw [hP]
    exact ⟨_, rfl, (crashes_read h c).bind _⟩
  · rw [hB]
    exact ⟨_, rfl, crashes_bind hr h⟩
  · rw [hD]
    exact ⟨_, rfl, (crashes_read h c).bind _⟩
  · rw [hE]
    refine ⟨_, rfl, Crashes.bind ⟨c, ?_⟩ _⟩
    simp only [callPlan, h]

theorem crashes_dataHandler {c : Connection π δ τ} {block : Bytes} {len n : Nat} (h : ¬ c.Readable block len) :
    Crashes (dataHandler engine n block len) c := by
  obtain ⟨x, hx, hcrash⟩ := crashes_handler engine n h
  refine Crashes.of_ok c c rfl ?_
  simp only [hx]
  exact hcrash.attempt.bind _

theorem crashes_launch {c : Connection π δ τ} (h : c.buffer = false) (op : Operation) : Crashes (launch op) c := by
  refine Crashes.of_ok c c rfl ⟨c, ?_⟩
  rw [h, Bool.and_false]
  rfl

theorem crashes_accepted {c : Connection π δ τ} {a : Arrival} (hparse : a.parseBlock = true) (hnetwork : a.networkBlock = false) :
    Crashes (accepted false a) c := by
  have hstart : ∃ c' : Connection π δ τ, (start a.parseBlock a.networkBlock).run c = some (.error .undefined, c') := by
    rw [hparse, hnetwork]
    exact crashes_launch (c := { c with session := { c.session with qtype := 0, result := some {} }, buffer := false }) rfl _
  obtain ⟨c', hc'⟩ := hstart
  refine ⟨c', ?_⟩
  have hrun := tryCatch_run (start a.parseBlock a.networkBlock) (fun f => do
    match f with
    | .undefined => undefined
    | .thrown _ => «end») c
  rw [hc'] at hrun
  exact hrun

/-- What is not allowed crashes the server. -/
theorem crashes_handle {c : Connection π δ τ} {e : Completion δ} (h : ¬ c.Allowed e) (n : Nat) : Crashes (handle engine n e) c := by
  cases e with
  | completes i failed a =>
    cases failed with
    | true => exact absurd trivial h
    | false =>
      simp only [Allowed] at h
      refine Crashes.of_ok c c rfl ?_
      cases hop : c.outstanding[i]? with
      | none => simp [hop] at h
      | some op =>
        refine Crashes.of_ok () { c with outstanding := c.outstanding.eraseIdx i, raises := a.raises } rfl ?_
        cases op with
        | accept =>
          have hpool : a.parseBlock = true ∧ a.networkBlock = false := by simpa [hop] using h
          exact crashes_accepted hpool.1 hpool.2
        | read len fn =>
          let c1 : Connection π δ τ := { c with outstanding := c.outstanding.eraseIdx i, raises := a.raises }
          cases fn with
          | data =>
            have hread : ¬ c.Readable a.block len := by simpa [hop] using h
            have hdata : Crashes (dataHandler engine n a.block len) c1 := crashes_dataHandler hread
            exact hdata.bind finish
          | length =>
            have hread : ofBig (a.block.take 4) = 4 ∧ ¬ c.Readable a.block 0 := by simpa [hop] using h
            have hdata : Crashes (dataHandler engine n a.block 0) c1 := crashes_dataHandler hread.2
            have hlength : Crashes (lengthHandler engine n a.block) c1 := by
              simp only [lengthHandler, hread.1]
              exact (hdata.bind finish).bind _
            exact hlength.bind finish
          | messageType => simp [hop] at h
        | write out fn => simp [hop] at h
  | _ => exact absurd trivial h

def Runs (engine : Engine π δ τ) : Connection π δ τ → List (Completion δ) → Connection π δ τ → Prop
  | c, [], c' => c = c'
  | c, e :: es, c' => ∃ c1, Comes (fun n => handle engine n e) c (.ok (), c1) ∧ Runs engine c1 es c'

theorem runs_append {c c' : Connection π δ τ} {es : List (Completion δ)} {e : Completion δ} :
    Runs engine c (es ++ [e]) c' ↔ ∃ c1, Runs engine c es c1 ∧ Comes (fun n => handle engine n e) c1 (.ok (), c') := by
  induction es generalizing c with
  | nil => simp [Runs]
  | cons x es ih =>
    rw [List.cons_append, Runs]
    simp only [ih, Runs]
    constructor
    · rintro ⟨c1, h1, c2, h2, h3⟩
      exact ⟨c2, ⟨c1, h1, h2⟩, h3⟩
    · rintro ⟨c2, ⟨c1, h1, h2⟩, h3⟩
      exact ⟨c1, h1, c2, h2, h3⟩

theorem Runs.unique {c c1 c2 : Connection π δ τ} {es : List (Completion δ)} (h1 : Runs engine c es c1) (h2 : Runs engine c es c2) :
    c1 = c2 := by
  induction es generalizing c with
  | nil => exact h1.symm.trans h2
  | cons e es ih =>
    obtain ⟨d1, hd1, h1⟩ := h1
    obtain ⟨d2, hd2, h2⟩ := h2
    cases hd1.unique hd2
    exact ih h1 h2

/-- After every event of the run there is one continuation. -/
def Served (engine : Engine π δ τ) (c : Connection π δ τ) (es : List (Completion δ)) : Prop :=
  ∀ before later, es = before ++ later → ∃ c', Runs engine c before c' ∧ c'.OneContinuation

theorem comes_of_allowed (hengine : engine.Regular) {c : Connection π δ τ} (h : c.Settled) {e : Completion δ} (he : c.Allowed e) :
    ∃ c', Comes (fun n => handle engine n e) c (.ok (), c') ∧ c'.Settled := by
  obtain ⟨r, c', hcomes, hpost⟩ := handle_returns hengine h he (R := fun _ _ => False)
  cases r with
  | ok a => exact ⟨c', hcomes, hpost⟩
  | error f => exact hpost.elim

theorem not_comes_of_crashes {x : Nat → Action π δ τ Unit} {c : Connection π δ τ} (h : ∀ n, Crashes (x n) c) (c' : Connection π δ τ) :
    ¬ Comes x c (.ok (), c') := by
  rintro ⟨n, hn⟩
  obtain ⟨c'', hc''⟩ := h n
  rw [hn n le_rfl] at hc''
  cases hc''

def AllAllowed (engine : Engine π δ τ) (c : Connection π δ τ) (es : List (Completion δ)) : Prop :=
  Runs.AtEach (fun before e => ∀ c', Runs engine c before c' → c'.Allowed e) es

theorem settled_of_allowed (hengine : engine.Regular) {c : Connection π δ τ} (h : c.Settled) {es : List (Completion δ)}
    (hes : AllAllowed engine c es) : ∃ c', Runs engine c es c' ∧ c'.Settled := by
  induction es using List.reverseRecOn with
  | nil => exact ⟨c, rfl, h⟩
  | append_singleton es e ih =>
    obtain ⟨hes, he⟩ := Runs.atEach_append.mp hes
    obtain ⟨c1, hruns, hsettled⟩ := ih hes
    obtain ⟨c2, hcomes, hsettled'⟩ := comes_of_allowed hengine hsettled (he c1 hruns)
    exact ⟨c2, runs_append.mpr ⟨c1, hruns, hcomes⟩, hsettled'⟩

/-- A session object that has been made for the next connection. -/
def allocated (i : Nat) (db : δ) : Connection π δ τ :=
  { session := { index := i }, db := db, socket := true, outstanding := [.accept], sessions := i + 1 }

theorem settled_allocated (i : Nat) (db : δ) : (allocated i db : Connection π δ τ).Settled := by
  refine ⟨rfl, ?_⟩
  simp only [allocated, List.mem_singleton]
  rintro _ rfl
  exact ⟨rfl, fun hne => absurd rfl hne, fun hne => absurd rfl hne, fun _ _ hop => by cases hop⟩

/-- In which runs there is one continuation after every event. -/
theorem served_iff (hengine : engine.Regular) (i : Nat) (db : δ) (es : List (Completion δ)) :
    Served engine (allocated i db) es ↔ AllAllowed engine (allocated i db) es := by
  constructor
  · rintro h before e later rfl c' hruns
    by_contra hnot
    obtain ⟨c2, hruns2, -⟩ := h (before ++ [e]) later (by simp)
    obtain ⟨c1, hruns1, hcomes⟩ := runs_append.mp hruns2
    cases hruns.unique hruns1
    exact not_comes_of_crashes (crashes_handle hnot) c2 hcomes
  · rintro h before later rfl
    obtain ⟨c', hruns, hsettled⟩ := settled_of_allowed hengine (settled_allocated i db) h.left
    exact ⟨c', hruns, hsettled.one⟩

end Connection

theorem ignoringEngine_regular : ignoringEngine.Regular where
  defined :=
    { parseSql := fun _ x hx => by
        cases hx
        exact Fault.catchable_parseError _
      buildPlan := fun _ => .of_ok ()
      getResultType := fun _ _ => .of_ok DBDataType.string
      getResult := fun _ _ => .of_ok ExecutionResult.null
      «begin» := fun _ _ _ _ _ h => by cases h
      next := fun _ _ _ _ h => by cases h
      «end» := fun _ _ _ h => by cases h }
  finite := ⟨fun _ => 0, fun _ _ _ h => by cases h⟩
  rowsFit := fun _ w h => by
    have hfull : ((({ size := blockSize } : PgDataWriter).begin (char "D")).addInt16 0).end.full = false := by decide +kernel
    cases h
    exact hfull

/-- A read or write has completed, with these bytes in the buffer. -/
def arrives (block : Bytes) : Completion Unit := .completes 0 false { block := block }

/-- A client that sends its startup message and then an Execute. -/
def executeFirst : List (Completion Unit) :=
  [arrives [], arrives [0, 0, 0, 9], arrives [0, 3, 0, 0, 0], arrives [], arrives (bytes "E"), arrives [0, 0, 0, 9],
    arrives [0, 0, 0, 0, 0]]

namespace Connection

theorem served_iff_executeFirst :
    Served ignoringEngine (allocated 0 ()) executeFirst ↔ AllAllowed ignoringEngine (allocated 0 ()) executeFirst :=
  served_iff ignoringEngine_regular 0 () executeFirst

/-- The connection after an event that needs no more fuel. -/
def after (c : Connection Unit Unit Unit) (e : Completion Unit) : Connection Unit Unit Unit :=
  match (handle ignoringEngine 1 e).run c with
  | some (_, c') => c'
  | none => c

def beforeExecute : Connection Unit Unit Unit := (executeFirst.take 6).foldl after (allocated 0 ())

theorem comes_after {c : Connection Unit Unit Unit} {e : Completion Unit}
    (h : ∀ k, (handle ignoringEngine (k + 1) e).run c = some (.ok (), after c e)) :
    Comes (fun n => handle ignoringEngine n e) c (.ok (), after c e) := by
  refine ⟨1, fun m hm => ?_⟩
  obtain ⟨k, rfl⟩ : ∃ k, m = k + 1 := ⟨m - 1, by omega⟩
  exact h k

set_option maxRecDepth 20000 in
theorem runs_beforeExecute : Runs ignoringEngine (allocated 0 ()) (executeFirst.take 6) beforeExecute :=
  ⟨_, comes_after fun _ => rfl, _, comes_after fun _ => rfl, _, comes_after fun _ => rfl, _, comes_after fun _ => rfl, _,
    comes_after fun _ => rfl, _, comes_after fun _ => rfl, rfl⟩

theorem not_allowed_execute {c : Connection Unit Unit Unit} (len : Nat) {block : Bytes}
    (hop : c.outstanding[0]? = some (.read len .data)) (hqtype : c.session.qtype = char "E") (hplan : c.session.plan = none) :
    ¬ c.Allowed (arrives block) := by
  intro h
  simp only [Allowed, arrives, hop] at h
  exact h.2.2.2.2.2 hqtype hplan

/-- The null plan is dereferenced, and nothing is outstanding afterwards. -/
theorem executeFirst_not_served : ¬ Served ignoringEngine (allocated 0 ()) executeFirst := by
  intro h
  obtain ⟨c2, hruns, -⟩ := h executeFirst [] rfl
  have hsplit : executeFirst = executeFirst.take 6 ++ [arrives [0, 0, 0, 0, 0]] := rfl
  rw [hsplit] at hruns
  obtain ⟨c1, hruns1, hcomes⟩ := runs_append.mp hruns
  cases runs_beforeExecute.unique hruns1
  have hnot : ¬ beforeExecute.Allowed (arrives [0, 0, 0, 0, 0]) :=
    not_allowed_execute 5 (by decide +kernel) (by decide +kernel) (by decide +kernel)
  exact not_comes_of_crashes (crashes_handle hnot) c2 hcomes

end Connection

end LevelPgServer
