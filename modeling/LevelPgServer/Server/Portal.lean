import LevelPgServer.Server.SessionInfo
import LevelPgServer.Lib.StateRules

namespace LevelPgServer

open PostgresProtocol StateRules

variable {π δ τ : Type}

/-- No statement is being executed, and the startup is over. -/
def Control.Idle : Control → Prop
  | .reading | .closed | .undefined => True
  | .writing _ fn => fn = .readMessageType
  | _ => False

namespace SessionInfo

variable (engine : Engine π δ τ)

@[simp] theorem enter_plan (fn : Continuation) (s : SessionInfo π τ) : (s.enter engine fn).plan = s.plan := by
  cases fn with
  | handleExecutionResult =>
    rw [enter]
    split <;> rfl
  | _ => rfl

@[simp] theorem doWrite_plan (out : Bytes) (fn : Continuation) (s : SessionInfo π τ) :
    (s.doWrite engine out fn).plan = s.plan := by
  rw [doWrite]
  split
  · exact enter_plan engine fn s
  · rfl

@[simp] theorem close_plan (s : SessionInfo π τ) : s.close.plan = s.plan := rfl

@[simp] theorem caught_plan (f : Fault) (s : SessionInfo π τ) : (s.caught engine f).plan = s.plan := by
  cases f with
  | undefined => rfl
  | thrown e =>
    rw [caught]
    split
    · rfl
    · exact doWrite_plan engine _ _ s

theorem doWrite_idle (out : Bytes) (s : SessionInfo π τ) : (s.doWrite engine out .readMessageType).control.Idle := by
  rw [doWrite]
  split
  · trivial
  · rfl

theorem caught_idle (f : Fault) (s : SessionInfo π τ) : (s.caught engine f).control.Idle := by
  cases f with
  | undefined => trivial
  | thrown e =>
    rw [caught]
    split
    · trivial
    · exact doWrite_idle engine _ s

theorem liftFallible_triple {α : Type} {P : SessionInfo π τ → Prop} (x : Fallible α) :
    Triple P (liftFallible x : Handler π τ α) (fun _ => P) (fun _ => P) := by
  cases x with
  | ok a => exact Triple.of_pure a fun s h => h
  | error f => exact Triple.of_throw f fun s h => h

theorem handleSync_triple (p : Option π) : Triple (fun s : SessionInfo π τ => s.plan = p) (handleSync engine)
    (fun _ s => s.plan = p ∧ s.control.Idle) (fun _ s => s.plan = p) :=
  Triple.of_modify _ fun s h => ⟨by simpa using h, doWrite_idle engine _ s⟩

theorem handleDescription_triple (block : Bytes) (len : Nat) (p : Option π) :
    Triple (fun s : SessionInfo π τ => s.plan = p) (handleDescription engine block len)
      (fun _ s => s.plan = p ∧ s.control.Idle) (fun _ s => s.plan = p) := by
  have hread : Triple (fun s : SessionInfo π τ => s.plan = p) (modify (enter engine .readMessageType) : Handler π τ Unit)
      (fun _ s => s.plan = p ∧ s.control.Idle) (fun _ s => s.plan = p) :=
    Triple.of_modify _ fun s h => ⟨by simpa using h, trivial⟩
  refine (liftFallible_triple _).bind fun _ => (Triple.of_get
    (Q := fun (s t : SessionInfo π τ) => s.plan = p ∧ t.plan = p) fun s h => ⟨h, h⟩).bind fun s => ?_
  cases hs : s.plan with
  | none => exact hread.conseq (fun t h => h.2) (fun _ _ h => h) (fun _ _ h => h)
  | some q =>
    dsimp only
    split
    · exact hread.conseq (fun t h => h.2) (fun _ _ h => h) (fun _ _ h => h)
    · refine ((liftFallible_triple _).bind (Q := fun _ t => t.plan = p) fun out => ?_).conseq (fun t h => h.2)
        (fun _ _ h => h) (fun _ _ h => h)
      exact Triple.of_modify _ fun t h => ⟨by simpa using h, doWrite_idle engine _ t⟩

theorem resolve_triple : Triple (fun _ : SessionInfo π τ => True) (resolve engine) (fun _ s => s.plan ≠ none)
    (fun _ _ => True) := by
  have hget : Triple (fun _ : SessionInfo π τ => True) (onResult get : Handler π τ (ParseResult τ)) (fun _ _ => True)
      (fun _ _ => True) := by
    intro s _
    split <;> trivial
  refine hget.bind fun r => ?_
  cases r.tree with
  | none => exact Triple.of_modify _ fun s _ => by simp
  | some tree => exact (liftFallible_triple _).bind fun p => Triple.of_modify _ fun s _ => by simp

theorem handleBind_triple (block : Bytes) (len : Nat) : Triple (fun _ : SessionInfo π τ => True)
    (handleBind engine block len) (fun _ s => s.plan ≠ none ∧ s.control = .reading) (fun _ _ => True) := by
  have hany : ∀ {α : Type} (m : Handler π τ α), Triple (fun _ : SessionInfo π τ => True) m (fun _ _ => True)
      (fun _ _ => True) := by
    intro α m s _
    split <;> trivial
  refine (hany _).bind fun _ => (hany _).bind fun _ => (hany _).bind fun _ => (hany _).bind fun _ => (hany _).bind fun _ =>
    (resolve_triple engine).bind fun _ => ?_
  exact Triple.of_modify _ fun s h => ⟨by simpa using h, rfl⟩

def succeeds (length : Nat) (block : Bytes) (s : SessionInfo π τ) : Bool :=
  if length < 4 ∨ blockSize < length - 4 then false
  else
    match handler engine s.qtype block (length - 4) with
    | none => false
    | some h =>
      match h s with
      | .ok _ _ => true
      | .error _ _ => false

end SessionInfo

/-- A message that was handled, whether that ended without an error, and the plan behind it. -/
structure Handled (π : Type) where
  type : UInt8
  ok : Bool
  plan : Option π

namespace Handled

def isCommand (m : Handled π) : Bool := [char "P", char "B", char "E", char "Q"].contains m.type

end Handled

namespace Server

open SessionInfo (Handler handler handleBind handleBind_triple handleSync_triple handleDescription_triple caught_plan
  caught_idle enter_plan)

variable (engine : Engine π δ τ)

/-- The message that an event hands to a session that waits for one. -/
def handled (s : Server π δ τ) (e : Event δ) : List (Handled π) :=
  match e, s.session.control with
  | .message type length block, .reading =>
    [⟨type, ({ s.session with qtype := type } : SessionInfo π τ).succeeds engine length block, (s.step engine e).session.plan⟩]
  | .message _ length block, .readingLength =>
    [⟨s.session.qtype, s.session.succeeds engine length block, (s.step engine e).session.plan⟩]
  | _, _ => []

def history (s0 : Server π δ τ) (es : List (Event δ)) : List (Handled π) :=
  es.foldl (fun (a : Server π δ τ × List (Handled π)) e => (a.1.step engine e, a.1.handled engine e ++ a.2)) (s0, []) |>.2

theorem history_append (s0 : Server π δ τ) (es : List (Event δ)) (e : Event δ) :
    history engine s0 (es ++ [e]) = (run engine s0 es).handled engine e ++ history engine s0 es := by
  have hrun : ∀ (es : List (Event δ)) (a : Server π δ τ × List (Handled π)),
      (es.foldl (fun (a : Server π δ τ × List (Handled π)) e => (a.1.step engine e, a.1.handled engine e ++ a.2)) a).1 =
        run engine a.1 es := by
    intro es
    induction es with
    | nil => exact fun _ => rfl
    | cons e es ih => exact fun a => ih _
  rw [history, history, List.foldl_append, List.foldl_cons, List.foldl_nil, hrun]

theorem run_append (s0 : Server π δ τ) (es : List (Event δ)) (e : Event δ) :
    run engine s0 (es ++ [e]) = (run engine s0 es).step engine e := by
  rw [run, List.foldl_append]
  rfl

/-- The last command before was a Bind, and it succeeded. -/
def Bound (hist : List (Handled π)) : Prop :=
  ∃ b, hist.find? Handled.isCommand = some b ∧ b.type = char "B" ∧ b.ok = true

/-- An Execute is in order: the plan it runs was built by the last Bind, which succeeded, and
since then no message has replaced the tree, bound again or executed; or it is answered by
an error at once. -/
def InOrder (s0 : Server π δ τ) (es : List (Event δ)) (length : Nat) (block : Bytes) : Prop :=
  let s := run engine s0 es
  let s' := s.step engine (.message (char "E") length block)
  (∃ p later b before, s.session.plan = some p ∧ s' = { s with session := { s.session with
      qtype := char "E", control := .beginning } } ∧
    history engine s0 es = later ++ b :: before ∧ b.type = char "B" ∧ b.ok = true ∧ b.plan = some p ∧
      ∀ m ∈ later, m.isCommand = false) ∨
  (∃ out, s'.session.control = .writing out .readMessageType ∧ s'.db = s.db)

/-- What is known of the session when the last command was a Bind that succeeded. -/
def Portal (hist : List (Handled π)) (s : SessionInfo π τ) : Prop :=
  ∀ b, hist.find? Handled.isCommand = some b → b.type = char "B" → b.ok = true →
    s.plan = b.plan ∧ b.plan ≠ none ∧ s.control.Idle

theorem Portal.of_frame {hist : List (Handled π)} {s s' : SessionInfo π τ} (h : Portal hist s) (hp : s'.plan = s.plan)
    (hc : s.control.Idle → s'.control.Idle) : Portal hist s' := fun b hb ht hok => by
  obtain ⟨h1, h2, h3⟩ := h b hb ht hok
  exact ⟨hp.trans h1, h2, hc h3⟩

theorem readMessage_frame {type : UInt8} (hq : ([char "P", char "B", char "E", char "Q"] : List UInt8).contains type = false)
    (length : Nat) (block : Bytes) (s : SessionInfo π τ) :
    (s.readMessage engine type length block).plan = s.plan ∧ (s.readMessage engine type length block).control.Idle := by
  have hclose : ∀ t : SessionInfo π τ, t.close.plan = t.plan ∧ t.close.control.Idle := fun t => ⟨rfl, trivial⟩
  rw [SessionInfo.readMessage]
  split
  · exact hclose _
  · next hx =>
    rw [SessionInfo.readLen]
    split
    · exact hclose _
    · have hrun : ∀ m : Handler π τ Unit, Triple (fun t : SessionInfo π τ => t.plan = s.plan) m
          (fun _ t => t.plan = s.plan ∧ t.control.Idle) (fun _ t => t.plan = s.plan) →
            handler engine type block (length - 4) = some m →
              (({ s with qtype := type } : SessionInfo π τ).readData engine block (length - 4)).plan = s.plan ∧
                (({ s with qtype := type } : SessionInfo π τ).readData engine block (length - 4)).control.Idle := by
        intro m hm hh
        rw [SessionInfo.readData, hh]
        dsimp only
        cases hres : m { s with qtype := type } with
        | ok u t => exact hm.ok (s := { s with qtype := type }) rfl hres
        | error f t => exact ⟨(caught_plan engine f t).trans (hm.error (s := { s with qtype := type }) rfl hres), caught_idle engine f t⟩
      simp only [not_or] at hx
      simp only [List.contains_cons, List.contains_nil, Bool.or_false, Bool.or_eq_false_iff, beq_eq_false_iff_ne] at hq
      by_cases hS : type = char "S"
      · exact hrun _ (handleSync_triple engine s.plan) (by rw [handler, if_neg hx.2, if_pos hS])
      by_cases hD : type = char "D"
      · exact hrun _ (handleDescription_triple engine block (length - 4) s.plan)
          (by rw [handler, if_neg hx.2, if_neg hS, if_neg hq.2.2.2, if_neg hq.1, if_neg hq.2.1, if_pos hD])
      · have hnone : handler engine type block (length - 4) = none := by
          rw [handler, if_neg hx.2, if_neg hS, if_neg hq.2.2.2, if_neg hq.1, if_neg hq.2.1, if_neg hD, if_neg hq.2.2.1]
        rw [SessionInfo.readData, hnone]
        exact hclose _

/-- A Bind that succeeds leaves a plan, and the session waits for the next message. -/
theorem readLen_bind {length : Nat} {block : Bytes} {s : SessionInfo π τ} (hq : s.qtype = char "B")
    (h : s.succeeds engine length block = true) :
    (s.readLen engine length block).plan ≠ none ∧ (s.readLen engine length block).control = .reading := by
  rw [SessionInfo.succeeds] at h
  split at h
  · cases h
  · next hlen =>
    have hB : handler engine s.qtype block (length - 4) = some (handleBind engine block (length - 4)) := by
      rw [hq]
      rfl
    rw [hB] at h
    dsimp only at h
    cases hres : handleBind engine block (length - 4) s with
    | error f t =>
      rw [hres] at h
      cases h
    | ok u t =>
      rw [SessionInfo.readLen, if_neg hlen, SessionInfo.readData, hB]
      dsimp only
      rw [hres]
      exact (handleBind_triple engine block (length - 4)).ok trivial hres

/-- What a message does to the plan, whether its type is read with it or known before. -/
theorem handled_message (type : UInt8) (length : Nat) (block : Bytes) (s : Server π δ τ) :
    (s.handled engine (.message type length block) = [] ∧ s.step engine (.message type length block) = s) ∨
      ∃ m, s.handled engine (.message type length block) = [m] ∧
        m.plan = (s.step engine (.message type length block)).session.plan ∧
          (m.type = char "B" → m.ok = true →
            m.plan ≠ none ∧ (s.step engine (.message type length block)).session.control = .reading) ∧
          (m.isCommand = false → s.session.control.Idle → m.plan = s.session.plan ∧
            (s.step engine (.message type length block)).session.control.Idle) := by
  cases hc : s.session.control with
  | reading =>
    have hstep : s.step engine (.message type length block) =
        { s with session := s.session.readMessage engine type length block } := by simp only [Server.step, hc]
    refine .inr ⟨⟨type, ({ s.session with qtype := type } : SessionInfo π τ).succeeds engine length block, _⟩,
      by simp only [handled, hc], rfl, fun ht hok => ?_, fun hcmd _ => ?_⟩
    · dsimp only at ht
      subst ht
      have hread : s.session.readMessage engine (char "B") length block =
          ({ s.session with qtype := char "B" } : SessionInfo π τ).readLen engine length block := by
        rw [SessionInfo.readMessage, if_neg (by decide)]
      rw [hstep]
      dsimp only
      rw [hread]
      exact readLen_bind engine rfl hok
    · rw [hstep]
      exact readMessage_frame engine hcmd length block s.session
  | readingLength =>
    have hstep : s.step engine (.message type length block) =
        { s with session := s.session.readLen engine length block } := by simp only [Server.step, hc]
    refine .inr ⟨⟨s.session.qtype, s.session.succeeds engine length block, _⟩, by simp only [handled, hc], rfl,
      fun ht hok => ?_, fun _ hidle => hidle.elim⟩
    rw [hstep]
    exact readLen_bind engine ht hok
  | _ => exact .inl ⟨by simp only [handled, hc], by simp only [Server.step, hc]⟩

theorem Portal.step {hist : List (Handled π)} {s : Server π δ τ} (h : Portal hist s.session) (e : Event δ) :
    Portal (s.handled engine e ++ hist) (s.step engine e).session := by
  cases e with
  | message type length block =>
    rcases handled_message engine type length block s with ⟨hnil, hstep⟩ | ⟨m, hm, hplan, hbind, hframe⟩
    · rw [hnil, hstep]
      exact h
    · rw [hm]
      intro b hb ht hok
      rw [List.singleton_append, List.find?_cons] at hb
      cases hcmd : m.isCommand with
      | true =>
        rw [hcmd] at hb
        cases hb
        obtain ⟨hne, hcontrol⟩ := hbind ht hok
        exact ⟨hplan.symm, hne, by rw [hcontrol]; trivial⟩
      | false =>
        rw [hcmd] at hb
        obtain ⟨h1, h2, h3⟩ := h b hb ht hok
        obtain ⟨hsame, hidle⟩ := hframe hcmd h3
        exact ⟨hplan.symm.trans (hsame.trans h1), h2, hidle⟩
  | readError =>
    cases hc : s.session.control <;> simp only [handled, Server.step, hc, List.nil_append] <;>
      first | exact h | exact h.of_frame rfl fun _ => trivial
  | written =>
    cases hc : s.session.control with
    | writing out fn =>
      simp only [handled, Server.step, hc, List.nil_append]
      refine h.of_frame (enter_plan engine fn s.session) fun hidle => ?_
      rw [hc] at hidle
      obtain rfl : fn = .readMessageType := hidle
      trivial
    | _ =>
      simp only [handled, Server.step, hc]
      exact h
  | writeError =>
    cases hc : s.session.control <;> simp only [handled, Server.step, hc, List.nil_append] <;>
      first | exact h | exact h.of_frame rfl fun _ => trivial
  | tick raised =>
    cases hc : s.session.control <;> simp only [handled, Server.step, hc, List.nil_append] <;> first
      | exact h
      | exact fun b hb ht hok => by
          have := (h b hb ht hok).2.2
          rw [hc] at this
          exact this.elim
  | cancel => exact h.of_frame rfl fun hidle => hidle
  | commit db => exact h

theorem portal_run (s0 : Server π δ τ) (es : List (Event δ)) : Portal (history engine s0 es) (run engine s0 es).session := by
  induction es using List.reverseRecOn with
  | nil => exact fun b hb => by cases hb
  | append_singleton es e ih =>
    rw [history_append, run_append]
    exact ih.step engine e

/-- `P` holds whenever an Execute is received in the run. -/
def AtExecutions (s0 : Server π δ τ) (es : List (Event δ)) (P : List (Event δ) → Nat → Bytes → Prop) : Prop :=
  ∀ before length block later, es = before ++ .message (char "E") length block :: later →
    (run engine s0 before).session.control = .reading → 4 ≤ length → length - 4 ≤ blockSize → P before length block

theorem step_execute {s : Server π δ τ} (hc : s.session.control = .reading) {length : Nat} (h4 : 4 ≤ length)
    (hmax : length - 4 ≤ blockSize) (block : Bytes) : s.step engine (.message (char "E") length block) =
      { s with session := { s.session with qtype := char "E", control := .beginning } } := by
  simp only [step, hc]
  rw [SessionInfo.readMessage, if_neg (by decide), SessionInfo.readLen, if_neg (by omega)]
  rfl

/-- In which runs every Execute is in order. -/
theorem inOrder_iff (s0 : Server π δ τ) (es : List (Event δ)) :
    AtExecutions engine s0 es (InOrder engine s0) ↔
      AtExecutions engine s0 es (fun before _ _ => Bound (history engine s0 before)) := by
  constructor
  · intro h before length block later hes hc h4 hmax
    rcases h before length block later hes hc h4 hmax with ⟨p, after, b, first, -, -, hhist, ht, hok, -, hnone⟩ | ⟨out, hout, -⟩
    · refine ⟨b, ?_, ht, hok⟩
      rw [hhist, List.find?_eq_some_iff_append]
      exact ⟨by rw [Handled.isCommand, ht]; decide, after, first, rfl, fun m hm => by rw [hnone m hm]; rfl⟩
    · rw [step_execute engine hc h4 hmax] at hout
      cases hout
  · intro h before length block later hes hc h4 hmax
    obtain ⟨b, hb, ht, hok⟩ := h before length block later hes hc h4 hmax
    obtain ⟨hplan, hne, -⟩ := portal_run engine s0 before b hb ht hok
    obtain ⟨p, hp⟩ := Option.ne_none_iff_exists'.mp hne
    obtain ⟨-, after, first, hhist, hnone⟩ := List.find?_eq_some_iff_append.mp hb
    exact .inl ⟨p, after, b, first, hplan.trans hp, step_execute engine hc h4 hmax block, hhist, ht, hok, hp,
      fun m hm => by simpa using hnone m hm⟩

end Server

/-- `EmptyPlan`, the plan of the statements that are ignored. -/
def emptyExecutionPlan : ExecutionPlan Unit Unit where
  «begin» _ _ := pure ()
  next _ := pure false
  «end» := pure ()
  getResultColumns _ := 0
  getProjectionName _ _ := []
  getResultType _ _ := .ok .string
  getResult _ _ := .ok .null
  getInfoString _ := bytes "SELECT 0"

/-- A server that knows only the statements that are ignored. -/
def ignoringEngine : Engine Unit Unit Unit where
  toExecutionPlan := emptyExecutionPlan
  parseSql _ := { tree := none, params := 0, allocs := [], error := some (parseError "syntax error") }
  setBindParamMode _ _ := id
  setString _ _ := id
  buildPlan _ := .ok ()
  emptyPlan := ()
  conv := decimalConversions
  fmt :=
    { double := fun _ => bytes "0.000000"
      double_ne_nil := fun _ => by decide
      date := fun _ => none
      dateTime := fun _ => none }

/-- A new session of a client that has sent its startup message. -/
def startupEvents : List (Event Unit) := [.message 0 9 [0, 3, 0, 0, 0], .written]

def newServer : Server Unit Unit Unit := ⟨SessionInfo.start { index := 0 }, ()⟩

/-- An Execute as the first message dereferences the null pointer. -/
theorem executeFirst_not_inOrder :
    (Server.run ignoringEngine newServer startupEvents).session.control = .reading ∧
      ¬ Server.InOrder ignoringEngine newServer startupEvents 9 [0, 0, 0, 0, 0] ∧
        (Server.run ignoringEngine newServer
          (startupEvents ++ [.message (char "E") 9 [0, 0, 0, 0, 0], .tick none])).session.control = .undefined := by
  refine ⟨by decide +kernel, ?_, by decide +kernel⟩
  rintro (⟨p, later, b, before, hp, -⟩ | ⟨out, hout, -⟩)
  · have hnone : (Server.run ignoringEngine newServer startupEvents).session.plan = none := by decide +kernel
    rw [hnone] at hp
    cases hp
  · have hbegin : ((Server.run ignoringEngine newServer startupEvents).step ignoringEngine
        (.message (char "E") 9 [0, 0, 0, 0, 0])).session.control = .beginning := by decide +kernel
    rw [hbegin] at hout
    cases hout

end LevelPgServer
