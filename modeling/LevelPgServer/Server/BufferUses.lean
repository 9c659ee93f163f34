import LevelPgServer.Server.ParseBuffer

/-! What the messages of a connection put into the buffer of its parse result, by their sizes. -/

namespace LevelPgServer

open PostgresProtocol StateRules

variable {π δ τ : Type}

/-- A text that was parsed, with the bytes that it and its nodes take, or one that never came to the parser; the
values of a Bind; the end of an execution. -/
inductive BufferUse
  | parsed (bytes : Nat) (tree : Bool) (params : Nat)
  | bypassed
  | bound (sizes : List Nat)
  | ended

namespace BufferUse

/-- Where values that begin at `start` end, up to the first that the buffer has no room for. -/
def fill (start : Nat) : List Nat → Nat
  | [] => start
  | n :: ns => if blockSize < start + n then start else fill (start + n) ns

mutual

/-- How much of the buffer is taken: by the last statement and the values that were bound since; after an execution
those of the last Bind are given back. The last use comes first. -/
def taken : List BufferUse → Nat
  | [] => 0
  | parsed bytes _ _ :: _ => bytes
  | bypassed :: us => taken us
  | bound sizes :: us => fill (taken us) sizes
  | ended :: us => beforeBind us

/-- How much was taken before the last Bind, since the connection began. -/
def beforeBind : List BufferUse → Nat
  | [] => 0
  | bound _ :: us => taken us
  | parsed _ _ _ :: us => beforeBind us
  | bypassed :: us => beforeBind us
  | ended :: us => beforeBind us

end

def size : List BufferUse → Nat
  | [] => 0
  | parsed n _ _ :: _ => n
  | _ :: us => size us

def hasTree : List BufferUse → Bool
  | [] => false
  | parsed _ tree _ :: _ => tree
  | bypassed :: _ => false
  | _ :: us => hasTree us

def params : List BufferUse → Nat
  | [] => 0
  | parsed _ _ n :: _ => n
  | _ :: us => params us

/-- A Bind can still find the last statement. -/
def Reachable (us : List BufferUse) : Prop := hasTree us = true ∨ params us ≠ 0

variable (engine : Engine π δ τ)

def ofText (sql : Bytes) : BufferUse :=
  if SessionInfo.bypassed sql then .bypassed
  else if blockSize < sql.length + 1 then .parsed 0 false 0
  else .parsed (sql.length + 1 + (engine.parseSql sql).allocs.sum) (engine.parseSql sql).tree.isSome
    (engine.parseSql sql).params

/-- What a message does behind the uses `us`. -/
def ofMessage (type : UInt8) (block : Bytes) (len : Nat) (us : List BufferUse) : List BufferUse :=
  if type = char "Q" then
    match readQueryInfo block len with
    | .ok sql => ofText engine sql :: us
    | .error _ => us
  else if type = char "P" then
    match readParseInfo block len with
    | .ok (sql, _) => ofText engine sql :: us
    | .error _ => us
  else if type = char "B" then
    match readBindParam block len (params us) with
    | .ok values => bound (values.map fun p => p.2.length) :: us
    | .error _ => bound [] :: us
  else us

end BufferUse

namespace Region

theorem exists_stop_consecutive {cur : Nat} {sizes : List Nat} (h : sizes ≠ []) :
    ∃ n ∈ consecutive cur sizes, n.stop = cur + sizes.sum := by
  induction sizes generalizing cur with
  | nil => exact absurd rfl h
  | cons size sizes ih =>
    rw [List.sum_cons]
    cases sizes with
    | nil => exact ⟨⟨cur, size⟩, List.mem_cons_self, by simp [stop]⟩
    | cons size' sizes =>
      obtain ⟨n, hn, hstop⟩ := @ih (cur + size) (List.cons_ne_nil _ _)
      exact ⟨n, List.mem_cons_of_mem _ hn, by rw [hstop, Nat.add_assoc]⟩

end Region

namespace ParseResult

open BufferUse (taken beforeBind ofText fill)

/-- The statement that is held is the one of the last text that was parsed. -/
structure Holds (us : List BufferUse) (r : ParseResult τ) : Prop where
  stop_le : ∀ n ∈ r.statement, n.stop ≤ BufferUse.size us
  exists_stop : BufferUse.size us = 0 ∨ ∃ n ∈ r.statement, n.stop = BufferUse.size us
  tree : r.tree.isSome = BufferUse.hasTree us
  params : r.params = BufferUse.params us

/-- So are the two ends in the buffer. -/
structure Tracks (us : List BufferUse) (r : ParseResult τ) : Prop where
  holds : r.Holds us
  current : r.current = taken us
  mark : r.mark = beforeBind us

variable {us : List BufferUse} {r : ParseResult τ}

theorem Holds.reachable_iff (h : r.Holds us) : r.Reachable ↔ BufferUse.Reachable us := by
  rw [Reachable, BufferUse.Reachable, ← h.tree, ← h.params, Option.isSome_iff_ne_none]

/-- The mark lies behind the statement where this is no longer than what was taken before the last Bind. -/
theorem Tracks.kept_iff (h : r.Tracks us) : r.Kept ↔ (BufferUse.Reachable us → BufferUse.size us ≤ beforeBind us) := by
  rw [Kept, h.holds.reachable_iff, h.mark]
  refine forall_congr' fun _ => ⟨fun hall => ?_, fun hle n hn => (h.holds.stop_le n hn).trans hle⟩
  obtain hzero | ⟨n, hn, hstop⟩ := h.holds.exists_stop
  · omega
  · exact hstop ▸ hall n hn

theorem Tracks.restore (h : r.Tracks us) : r.restore.Tracks (.ended :: us) where
  holds := ⟨h.holds.stop_le, h.holds.exists_stop, h.holds.tree, h.holds.params⟩
  current := h.mark
  mark := h.mark

theorem Tracks.setMark (h : r.Tracks us) : r.setMark.Tracks (.bound [] :: us) where
  holds := ⟨h.holds.stop_le, h.holds.exists_stop, h.holds.tree, h.holds.params⟩
  current := h.current
  mark := h.current

theorem alloc_full {size : Nat} (h : blockSize < r.current + size) :
    alloc size r = .error (.thrown (parseError "Not enough parse buffer")) r := by rw [alloc, if_pos h]

theorem alloc_fits {size : Nat} (h : ¬blockSize < r.current + size) :
    alloc size r = .ok ⟨r.current, size⟩ { r with current := r.current + size } := by rw [alloc, if_neg h]

/-- Whatever the buffer held, it holds the new text alone; the mark stays. -/
theorem parse_tracks (engine : Engine π δ τ) {sql : Bytes} (hsql : SessionInfo.bypassed sql = false) :
    Triple (fun r : ParseResult τ => r.mark = beforeBind us) (parse engine sql)
      (fun _ r => r.Tracks (ofText engine sql :: us)) (fun _ r => r.Tracks (ofText engine sql :: us)) := by
  rw [ofText, if_neg (by rw [hsql]; decide)]
  refine (Triple.of_modify (Q := fun _ (r : ParseResult τ) => r.tree = none ∧ r.params = 0 ∧ r.statement = [] ∧
    r.current = 0 ∧ r.mark = beforeBind us) _ ?_).bind fun _ => ?_
  · exact fun r h => ⟨rfl, rfl, rfl, rfl, h⟩
  by_cases hfull : blockSize < sql.length + 1
  · rw [if_pos hfull]
    refine Triple.bind (Q := fun _ _ => False) ?_ fun _ _ h => h.elim
    rintro r ⟨htree, hparams, hstatement, hcurrent, hmark⟩
    rw [alloc_full (by rw [hcurrent]; omega)]
    refine ⟨⟨fun n hn => ?_, .inl rfl, by rw [htree]; rfl, hparams⟩, hcurrent, hmark⟩
    rw [hstatement] at hn
    exact absurd hn List.not_mem_nil
  · rw [if_neg hfull]
    refine Triple.bind (Q := fun s r => s = ⟨0, sql.length + 1⟩ ∧ r.current = sql.length + 1 ∧ r.mark = beforeBind us)
      ?_ fun s => ?_
    · rintro r ⟨-, -, -, hcurrent, hmark⟩
      rw [alloc_fits (by rw [hcurrent]; omega)]
      exact ⟨by rw [hcurrent], by simp [hcurrent], hmark⟩
    · refine (Triple.of_modify (Q := fun _ r => r.Tracks (.parsed (sql.length + 1 + (engine.parseSql sql).allocs.sum)
        (engine.parseSql sql).tree.isSome (engine.parseSql sql).params :: us)) _ fun r h => ?_).bind fun _ => ?_
      · obtain ⟨rfl, hcurrent, hmark⟩ := h
        refine ⟨⟨fun n hn => ?_, .inr ?_, rfl, rfl⟩, by rw [hcurrent]; rfl, hmark⟩
        · rw [BufferUse.size]
          rcases List.mem_cons.mp hn with rfl | hn
          · simp only [Region.stop]
            omega
          · rw [hcurrent] at hn
            exact Region.stop_consecutive_le hn
        · rw [BufferUse.size, hcurrent]
          by_cases hnil : (engine.parseSql sql).allocs = []
          · exact ⟨_, List.mem_cons_self, by simp [Region.stop, hnil]⟩
          · obtain ⟨n, hn, hstop⟩ := @Region.exists_stop_consecutive (sql.length + 1) _ hnil
            exact ⟨n, List.mem_cons_of_mem _ hn, hstop⟩
      · cases (engine.parseSql sql).error with
        | some e => exact Triple.of_throw _ fun r h => h
        | none => exact Triple.of_pure _ fun r h => h

theorem holds_map {f : τ → τ} (h : r.Holds us) : ({ r with tree := r.tree.map f } : ParseResult τ).Holds us :=
  ⟨h.stop_le, h.exists_stop, by rw [← h.tree, Option.isSome_map], h.params⟩

theorem bindAll_tracks (engine : Engine π δ τ) (i : Nat) (params : List (Bool × Bytes)) (cur : Nat) :
    Triple (fun r : ParseResult τ => r.Holds us ∧ r.mark = taken us ∧ r.current = cur) (bindAll engine i params)
      (fun _ r => r.Holds us ∧ r.mark = taken us ∧ r.current = fill cur (params.map fun p => p.2.length))
      (fun _ r => r.Holds us ∧ r.mark = taken us ∧ r.current = fill cur (params.map fun p => p.2.length)) := by
  induction params generalizing i cur with
  | nil => exact Triple.of_pure () fun _ h => h
  | cons p params ih =>
    obtain ⟨binary, value⟩ := p
    rw [List.map_cons, fill]
    refine (Triple.of_modify (Q := fun _ r => r.Holds us ∧ r.mark = taken us ∧ r.current = cur) _
      fun r h => ⟨holds_map h.1, h.2⟩).bind fun _ => ?_
    by_cases hfull : blockSize < cur + value.length
    · rw [if_pos hfull]
      refine Triple.bind (Q := fun _ _ => False) ?_ fun _ _ h => h.elim
      rintro r ⟨hholds, hmark, hcurrent⟩
      rw [alloc_full (by rw [hcurrent]; exact hfull)]
      exact ⟨hholds, hmark, hcurrent⟩
    · rw [if_neg hfull]
      refine Triple.bind (Q := fun _ r => r.Holds us ∧ r.mark = taken us ∧
        r.current = cur + value.length) ?_ fun s => ?_
      · rintro r ⟨hholds, hmark, hcurrent⟩
        rw [alloc_fits (by rw [hcurrent]; exact hfull)]
        exact ⟨⟨hholds.stop_le, hholds.exists_stop, hholds.tree, hholds.params⟩, hmark, by simp [hcurrent]⟩
      · exact (Triple.of_modify _ fun r h => ⟨⟨h.1.stop_le, h.1.exists_stop, (holds_map h.1).tree, h.1.params⟩,
        h.2⟩).bind
          fun _ => ih (i + 1) (cur + value.length)

end ParseResult

namespace SessionInfo

open BufferUse (ofText ofMessage)

variable (engine : Engine π δ τ) {us : List BufferUse}

abbrev Tracked (us : List BufferUse) : SessionInfo π τ → Prop := OnResult fun r => r.Tracks us

theorem parse_tracked (sql : Bytes) : Triple (Tracked us : SessionInfo π τ → Prop) (parse engine sql)
    (fun _ => Tracked (ofText engine sql :: us)) (fun _ => Tracked (ofText engine sql :: us)) := by
  have hreset : ∀ R : ParseResult τ → Prop, Triple (fun r : ParseResult τ => r.Tracks us)
      (modify fun r => { r with tree := none } : EStateM Fault (ParseResult τ) Unit)
      (fun _ r => r.Tracks (.bypassed :: us)) (fun _ => R) := fun R =>
    Triple.of_modify _ fun r h => ⟨⟨h.holds.stop_le, h.holds.exists_stop, rfl, h.holds.params⟩, h.current, h.mark⟩
  rw [parse]
  by_cases hsql : bypassed sql = true
  · rw [if_pos hsql, ofText, if_pos hsql]
    exact (onResult_triple (hreset _)).bind fun _ => Triple.of_pure () fun _ h => h
  · rw [if_neg hsql]
    have hparse : Triple (fun r : ParseResult τ => r.Tracks (.bypassed :: us)) (ParseResult.parse engine sql)
        (fun _ r => r.Tracks (ofText engine sql :: us)) (fun _ r => r.Tracks (ofText engine sql :: us)) :=
      (ParseResult.parse_tracks engine (Bool.not_eq_true _ ▸ hsql)).conseq
        (fun r h => show r.mark = BufferUse.beforeBind us from h.mark) (fun _ _ h => h) fun _ _ h => h
    exact (onResult_triple (hreset _)).bind fun _ => onResult_triple hparse

theorem handleBind_tracked (block : Bytes) (len : Nat) : Triple (Tracked us : SessionInfo π τ → Prop)
    (handleBind engine block len) (fun _ => Tracked (ofMessage engine (char "B") block len us))
    (fun _ => Tracked (ofMessage engine (char "B") block len us)) := by
  have hmessage : ofMessage engine (char "B") block len us =
      match readBindParam block len (BufferUse.params us) with
      | .ok values => .bound (values.map fun p => p.2.length) :: us
      | .error _ => .bound [] :: us := rfl
  refine handleBind_onResult (M := fun r => r.Tracks (.bound [] :: us)) engine block len (fun r h => h.setMark) ?_ ?_
  · intro n f hread r h hr
    have hn : BufferUse.params us = n := h.holds.params.symm.trans hr
    rw [hmessage, hn, hread]
    exact h
  · intro n params hread r h
    have hn : BufferUse.params us = n := h.1.holds.params.symm.trans h.2
    rw [hmessage, hn, hread]
    have hholds : r.Holds us := ⟨h.1.holds.stop_le, h.1.holds.exists_stop, h.1.holds.tree, h.1.holds.params⟩
    refine ((ParseResult.bindAll_tracks engine 0 params (BufferUse.taken us)).conseq (fun _ h => h) (fun _ r h => ?_)
      fun _ r h => ?_) r ⟨hholds, h.1.mark, h.1.current⟩
    all_goals
      exact ⟨⟨h.1.stop_le, h.1.exists_stop, h.1.tree, h.1.params⟩, h.2.2, h.2.1⟩

theorem readLen_tracked {s : SessionInfo π τ} (h : Tracked us s) (length : Nat) (block : Bytes) :
    Tracked (ofMessage engine s.qtype block (length - 4) us) (s.readLen engine length block) := by
  refine readLen_onResult engine h length block (fun hQ => ?_) (fun hP => ?_) (fun hB => ?_) fun hQ hP hB r hr => ?_
  · have hmessage : ofMessage engine s.qtype block (length - 4) us =
        match readQueryInfo block (length - 4) with
        | .ok sql => ofText engine sql :: us
        | .error _ => us := if_pos hQ
    rw [hmessage]
    refine handleQuery_onResult engine block _ (fun f hread r hr => ?_) fun sql hread => ?_
    · rw [hread]
      exact hr
    · rw [hread]
      exact parse_tracked engine sql
  · have hmessage : ofMessage engine s.qtype block (length - 4) us =
        match readParseInfo block (length - 4) with
        | .ok (sql, _) => ofText engine sql :: us
        | .error _ => us := by
      rw [hP]
      rfl
    rw [hmessage]
    refine handleParse_onResult engine block _ (fun f hread r hr => ?_) fun sql n hread => ?_
    · rw [hread]
      exact hr
    · rw [hread]
      exact parse_tracked engine sql
  · rw [hB]
    exact handleBind_tracked engine block _
  · rw [ofMessage, if_neg hQ, if_neg hP, if_neg hB]
    exact hr

end SessionInfo

namespace Server

open SessionInfo (Tracked readLen_tracked enter_result)
open BufferUse (ofMessage size beforeBind)

variable (engine : Engine π δ τ)

/-- What an event does to the buffer behind the uses `us`. -/
def uses (s : Server π δ τ) (e : Event δ) (us : List BufferUse) : List BufferUse :=
  match e, s.session.control with
  | .message type length block, .reading => ofMessage engine type block (length - 4) us
  | .message _ length block, .readingLength => ofMessage engine s.session.qtype block (length - 4) us
  | .tick _, .finishing =>
    match s.session.plan with
    | none => us
    | some p =>
      match engine.end (p, s.db) with
      | .ok _ _ => .ended :: us
      | .error _ _ => us
  | _, _ => us

def bufferUses (s0 : Server π δ τ) (es : List (Event δ)) : List BufferUse :=
  (es.foldl (fun (a : Server π δ τ × List BufferUse) e => (a.1.step engine e, a.1.uses engine e a.2)) (s0, [])).2

theorem bufferUses_append (s0 : Server π δ τ) (es : List (Event δ)) (e : Event δ) :
    bufferUses engine s0 (es ++ [e]) = (run engine s0 es).uses engine e (bufferUses engine s0 es) := by
  have hrun : ∀ (es : List (Event δ)) (a : Server π δ τ × List BufferUse),
      (es.foldl (fun (a : Server π δ τ × List BufferUse) e => (a.1.step engine e, a.1.uses engine e a.2)) a).1 =
        run engine a.1 es := by
    intro es
    induction es with
    | nil => exact fun _ => rfl
    | cons e es ih => exact fun a => ih _
  rw [bufferUses, bufferUses, List.foldl_append, List.foldl_cons, List.foldl_nil, hrun]

theorem uses_tick {s : Server π δ τ} (raised : Option Nat) (us : List BufferUse) {p : π}
    (hp : s.session.plan = some p) :
    EndsExecution engine s ∧ s.uses engine (.tick raised) us = .ended :: us ∨
      ¬EndsExecution engine s ∧ s.uses engine (.tick raised) us = us := by
  by_cases hc : s.session.control = .finishing
  · simp only [uses, hc, hp]
    rw [endsExecution_iff engine hc hp]
    cases hend : engine.end (p, s.db) with
    | ok u a => exact .inl ⟨⟨a.1, a.2, rfl⟩, rfl⟩
    | error f a =>
      refine .inr ⟨fun h => ?_, rfl⟩
      obtain ⟨p', db, hok⟩ := h
      cases hok
  · refine .inr ⟨fun h => hc h.1, ?_⟩
    cases hcontrol : s.session.control with
    | finishing => exact absurd hcontrol hc
    | _ => simp only [uses, hcontrol]

theorem tracked_step {us : List BufferUse} {s : Server π δ τ} (h : Tracked us s.session) (e : Event δ) :
    Tracked (s.uses engine e us) (s.step engine e).session := by
  cases e with
  | message type length block =>
    cases hc : s.session.control with
    | reading =>
      simp only [uses, step, hc]
      rw [SessionInfo.readMessage]
      split
      · exact fun r hr => by cases hr
      · exact readLen_tracked engine (s := { s.session with qtype := type }) (h.of_result fun _ hr => hr) length block
    | readingLength =>
      simp only [uses, step, hc]
      exact readLen_tracked engine h length block
    | _ =>
      simp only [uses, step, hc]
      exact h
  | readError =>
    cases hc : s.session.control <;> simp only [uses, step, hc] <;> first | exact h | exact fun r hr => by cases hr
  | written =>
    cases hc : s.session.control with
    | writing out fn =>
      simp only [uses, step, hc]
      exact h.of_result fun r hr => by rwa [enter_result] at hr
    | _ =>
      simp only [uses, step, hc]
      exact h
  | writeError =>
    cases hc : s.session.control <;> simp only [uses, step, hc] <;> first | exact h | exact fun r hr => by cases hr
  | tick raised =>
    have htick : ∀ p, s.session.plan = some p →
        Tracked (s.uses engine (.tick raised) us) (tick engine raised p s).session := by
      intro p hp r hres
      obtain ⟨hold, hno⟩ | ⟨r', hr', rfl, hends⟩ := tick_result engine hp hres
      · obtain ⟨hyes, -⟩ | ⟨-, huses⟩ := uses_tick engine raised us hp
        · exact absurd hyes hno
        · rw [huses]
          exact h r hold
      · obtain ⟨-, huses⟩ | ⟨hnot, -⟩ := uses_tick engine raised us hp
        · rw [huses]
          exact (h r' hr').restore
        · exact absurd hends hnot
    cases hc : s.session.control <;> simp only [step, hc] <;> first
      | (simp only [uses, hc]
         exact h)
      | (cases hp : s.session.plan with
        | none =>
          simp only [uses, hc, hp]
          exact h
        | some p => exact htick p hp)
  | cancel => exact h
  | commit db => exact h

theorem tracked_run (s : SessionInfo π τ) (db : δ) (es : List (Event δ)) :
    Tracked (bufferUses engine ⟨s.start, db⟩ es) (run engine ⟨s.start, db⟩ es).session := by
  induction es using List.reverseRecOn with
  | nil =>
    intro r hr
    cases hr
    exact ⟨⟨fun n hn => absurd hn List.not_mem_nil, .inl rfl, rfl, rfl⟩, rfl, rfl⟩
  | append_singleton es e ih =>
    rw [bufferUses_append, run_append]
    exact tracked_step engine ih e

/-- Nothing overwrites a statement that can still be bound where every execution that ends behind a Parse or a Query
ends a statement that is not longer than what the last Bind before it, of another statement, has found in the buffer.
-/
theorem always_safe_iff (s : SessionInfo π τ) (db : δ) (es : List (Event δ)) :
    Always engine ⟨s.start, db⟩ es (fun t => ∀ r, t.session.result = some r → r.Safe) ↔
      AtRestores engine ⟨s.start, db⟩ es (fun before _ =>
        LastBind (history engine ⟨s.start, db⟩ before) ∨
          ¬BufferUse.Reachable (bufferUses engine ⟨s.start, db⟩ before) ∨
          size (bufferUses engine ⟨s.start, db⟩ before) ≤ beforeBind (bufferUses engine ⟨s.start, db⟩ before)) := by
  rw [always_safe_iff_kept]
  have hkept : ∀ before r, (run engine ⟨s.start, db⟩ before).session.result = some r → (r.Kept ↔
      ¬BufferUse.Reachable (bufferUses engine ⟨s.start, db⟩ before) ∨
        size (bufferUses engine ⟨s.start, db⟩ before) ≤ beforeBind (bufferUses engine ⟨s.start, db⟩ before)) :=
    fun before r hr => (tracked_run engine s db before r hr).kept_iff.trans imp_iff_not_or
  refine ⟨fun h before e later r hes hr => ?_, fun h before e later r hes hr => ?_⟩
  · exact (h before e later r hes hr).imp id (hkept before r hr.2.2.1).mp
  · exact (h before e later r hes hr).imp id (hkept before r hr.2.2.1).mpr

end Server

/-- `EmptyPlan`, or `ShowTables` at an index, of a server without tables. -/
def showTablesPlan : ExecutionPlan (Option Nat) Unit where
  «begin» _ _ := modify (Option.map fun _ => 0)
  next raised := do
    match ← get with
    | none => return false
    | some i =>
      if raised = some 0 then throw (.thrown (.execution "canceled"))
      set (some (i + 1))
      return false
  «end» := pure ()
  getResultColumns p := if p.isSome then 2 else 0
  getProjectionName _ i := if i = 0 then bytes "TableName" else bytes "Info"
  getResultType _ _ := .ok .string
  getResult _ _ := .error .undefined
  getInfoString _ := bytes "SELECT 0"

/-- A server that knows only `SHOW TABLES`, whose tree is one node. -/
def showTablesEngine : Engine (Option Nat) Unit Unit where
  toExecutionPlan := showTablesPlan
  parseSql sql :=
    if sql = bytes "SHOW TABLES" then
      { tree := some (), params := 0, allocs := [ParseNode.sizeofNode], error := none }
    else { tree := none, params := 0, allocs := [], error := some (parseError "syntax error") }
  setBindParamMode _ _ := id
  setString _ _ := id
  buildPlan _ := .ok (some 0)
  emptyPlan := none
  conv := decimalConversions
  fmt := ignoringEngine.fmt

def showTablesEvents : List (Event Unit) :=
  startupEvents ++ [.message (char "Q") 16 (bytes "SHOW TABLES" ++ [0]), .written, .tick none, .tick none, .tick none]

/-- After the query the free end of the buffer is its first byte, and the tree is still there. -/
theorem showTables_unsafe :
    ∃ r, (Server.run showTablesEngine ⟨SessionInfo.start { index := 0 }, ()⟩ showTablesEvents).session.result = some r ∧
      r.statement = [⟨0, 12⟩, ⟨12, 64⟩] ∧ r.current = 0 ∧ ¬ r.Safe := by
  refine ⟨{ tree := some (), statement := [⟨0, 12⟩, ⟨12, 64⟩] }, by decide +kernel, rfl, rfl, fun h => ?_⟩
  exact absurd (h.current (.inl (by simp)) ⟨0, 12⟩ (by simp)) (by decide)

end LevelPgServer
