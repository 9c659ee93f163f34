import LevelPgServer.Server.Portal

namespace LevelPgServer

open PostgresProtocol StateRules

variable {π δ τ : Type}

namespace SessionInfo

variable (engine : Engine π δ τ)

/-- Two sessions without a plan that differ at most in `m_bBinded`. -/
def Differ (s t : SessionInfo π τ) : Prop := t.plan = none ∧ s = { t with binded := s.binded }

def Similar (s t : SessionInfo π τ) : Prop := s = t ∨ Differ s t

theorem Similar.control_eq {s t : SessionInfo π τ} (h : Similar s t) : s.control = t.control := by
  rcases h with rfl | ⟨-, h⟩
  · rfl
  · rw [h]

theorem enter_differ (fn : Continuation) {s t : SessionInfo π τ} (h : Differ s t) :
    Differ (s.enter engine fn) (t.enter engine fn) := by
  obtain ⟨hp, hs⟩ := h
  rw [hs]
  cases fn with
  | handleExecutionResult =>
    simp only [enter, hp]
    exact ⟨rfl, rfl⟩
  | _ => exact ⟨hp, rfl⟩

theorem doWrite_differ (out : Bytes) (fn : Continuation) {s t : SessionInfo π τ} (h : Differ s t) :
    Differ (s.doWrite engine out fn) (t.doWrite engine out fn) := by
  rw [doWrite, doWrite]
  split
  · exact enter_differ engine fn h
  · obtain ⟨hp, hs⟩ := h
    rw [hs]
    exact ⟨hp, rfl⟩

theorem caught_differ (f : Fault) {s t : SessionInfo π τ} (h : Differ s t) :
    Differ (s.caught engine f) (t.caught engine f) := by
  obtain ⟨hp, hs⟩ := id h
  cases f with
  | undefined =>
    rw [hs]
    exact ⟨hp, rfl⟩
  | thrown e =>
    have hq : s.qtype = t.qtype := by rw [hs]
    rw [caught, caught, hq]
    split
    · rw [hs]
      exact ⟨hp, rfl⟩
    · exact doWrite_differ engine _ _ h

theorem liftFallible_lockstep {α : Type} {R : SessionInfo π τ → SessionInfo π τ → Prop} (x : Fallible α) :
    Lockstep R (liftFallible x : Handler π τ α) R R := by
  cases x with
  | ok a => exact Lockstep.of_pure a fun _ _ h => h
  | error f => exact Lockstep.of_throw f fun _ _ h => h

theorem onResult_lockstep {α : Type} (f : EStateM Fault (ParseResult τ) α) :
    Lockstep Differ (onResult f : Handler π τ α) Differ Differ := by
  rintro s t ⟨hp, hs⟩
  rw [hs]
  simp only [onResult]
  cases hr : t.result with
  | none => exact ⟨rfl, hp, by rw [hs, hr]⟩
  | some r =>
    dsimp only
    cases f r with
    | ok a r' => exact ⟨rfl, hp, rfl⟩
    | error e r' => exact ⟨rfl, hp, rfl⟩

theorem handleStartup_lockstep (block : Bytes) (len : Nat) :
    Lockstep Differ (handleStartup engine block len : Handler π τ Unit) Differ Differ := by
  refine (liftFallible_lockstep _).bind fun action => ?_
  cases action with
  | ssl => exact Lockstep.of_modify _ fun s t h => doWrite_differ engine _ _ h
  | normal =>
    refine Lockstep.of_modify _ fun s t h => ?_
    have hi : s.index = t.index := by rw [h.2]
    rw [hi]
    exact doWrite_differ engine _ _ h

theorem parse_lockstep (sql : Bytes) : Lockstep Differ (parse engine sql : Handler π τ Unit) Differ Differ := by
  refine (onResult_lockstep _).bind fun _ => ?_
  split
  · exact Lockstep.of_pure () fun _ _ h => h
  · exact onResult_lockstep _

theorem lockstep_refl {α : Type} (m : Handler π τ α) : Lockstep Eq m Similar Similar := by
  rintro s t rfl
  cases m s with
  | ok a s' => exact ⟨rfl, .inl rfl⟩
  | error e s' => exact ⟨rfl, .inl rfl⟩

theorem lockstep_similar {α : Type} {m : Handler π τ α} {S : SessionInfo π τ → SessionInfo π τ → Prop}
    (h : Lockstep Differ m S Differ) : Lockstep Differ m S Similar := h.conseq (fun _ _ h => h) (fun _ _ h => h) fun _ _ => .inr

theorem handleParse_lockstep (block : Bytes) (len : Nat) :
    Lockstep Differ (handleParse engine block len : Handler π τ Unit) Similar Similar := by
  refine (lockstep_similar (liftFallible_lockstep _)).bind fun a => (lockstep_similar (parse_lockstep engine _)).bind fun _ =>
    (lockstep_similar (onResult_lockstep _)).bind fun r => ?_
  have hrest : Lockstep Differ ((do
      modify fun s => { s with parsed := true, binded := false }
      modify (enter engine .readMessageType)) : Handler π τ Unit) Similar Similar := by
    refine Lockstep.bind (S := Eq) (Lockstep.of_modify _ ?_) fun _ => lockstep_refl _
    rintro s t ⟨-, hs⟩
    rw [hs]
  dsimp only
  split
  · exact (Lockstep.of_throw _ fun s t h => .inr h).bind (S := Differ) fun _ => hrest
  · exact hrest

/-- The new plan is the same; the flags are overwritten before anything else happens. -/
theorem resolve_lockstep : Lockstep Differ (resolve engine : Handler π τ Unit)
    (fun s t => s = { t with binded := s.binded }) Differ := by
  refine (onResult_lockstep _).bind fun r => ?_
  cases r.tree with
  | none => exact Lockstep.of_modify _ fun s t h => by rw [h.2]
  | some tree => exact (liftFallible_lockstep _).bind fun p => Lockstep.of_modify _ fun s t h => by rw [h.2]

theorem handleQuery_lockstep (block : Bytes) (len : Nat) :
    Lockstep Differ (handleQuery engine block len : Handler π τ Unit) Similar Similar := by
  refine (lockstep_similar (liftFallible_lockstep _)).bind fun a => (lockstep_similar (parse_lockstep engine _)).bind fun _ =>
    (lockstep_similar (resolve_lockstep engine)).bind fun _ => Lockstep.bind (S := Eq) (Lockstep.of_modify _ ?_) fun _ =>
      lockstep_refl _
  intro s t hs
  rw [hs]

theorem handleBind_lockstep (block : Bytes) (len : Nat) :
    Lockstep Differ (handleBind engine block len : Handler π τ Unit) Similar Similar := by
  refine (lockstep_similar (onResult_lockstep _)).bind fun _ => (lockstep_similar (onResult_lockstep _)).bind fun r =>
    (lockstep_similar (liftFallible_lockstep _)).bind fun _ => (lockstep_similar (onResult_lockstep _)).bind fun _ =>
      Lockstep.bind (S := Eq) (Lockstep.of_modify _ ?_) fun _ => lockstep_refl _
  rintro s t ⟨-, hs⟩
  rw [hs]

theorem handleDescription_lockstep (block : Bytes) (len : Nat) :
    Lockstep Differ (handleDescription engine block len : Handler π τ Unit) Differ Differ := by
  refine (liftFallible_lockstep _).bind fun _ => ?_
  intro s t h
  have hs : s.plan = none := by
    rw [h.2]
    exact h.1
  simp only [Bind.bind, EStateM.bind, StateRules.get_run, hs, h.1]
  exact ⟨trivial, enter_differ engine _ h⟩

/-- Two sessions that are similar stay similar when they handle the same message. -/
theorem readData_similar (block : Bytes) (len : Nat) {s t : SessionInfo π τ} (h : Differ s t) :
    Similar (s.readData engine block len) (t.readData engine block len) := by
  have hq : s.qtype = t.qtype := by rw [h.2]
  have hrun : ∀ m : Handler π τ Unit, Lockstep Differ m Similar Similar → handler engine t.qtype block len = some m →
      Similar (s.readData engine block len) (t.readData engine block len) := by
    intro m hm hh
    rw [readData, readData, hq, hh]
    dsimp only
    have hrun := hm s t h
    cases h1 : m s <;> cases h2 : m t <;> rw [h1, h2] at hrun
    · exact hrun.2
    · exact hrun.elim
    · exact hrun.elim
    · obtain ⟨rfl, rfl | hd⟩ := hrun
      · exact .inl rfl
      · exact .inr (caught_differ engine _ hd)
  have hclosed : handler engine t.qtype block len = (none : Option (Handler π τ Unit)) →
      Similar (s.readData engine block len) (t.readData engine block len) := by
    intro hh
    rw [readData, readData, hq, hh]
    obtain ⟨hp, hs⟩ := h
    rw [hs]
    exact .inr ⟨hp, rfl⟩
  have hsim : ∀ {m : Handler π τ Unit}, Lockstep Differ m Differ Differ → Lockstep Differ m Similar Similar :=
    fun hm => hm.conseq (fun _ _ h => h) (fun _ _ => .inr) fun _ _ => .inr
  rw [handler] at hrun hclosed
  split at hrun
  · exact hrun _ (hsim (handleStartup_lockstep engine block len)) rfl
  split at hrun
  · exact hrun _ (hsim (Lockstep.of_modify _ fun _ _ h => doWrite_differ engine _ _ h)) rfl
  split at hrun
  · exact hrun _ (handleQuery_lockstep engine block len) rfl
  split at hrun
  · exact hrun _ (handleParse_lockstep engine block len) rfl
  split at hrun
  · exact hrun _ (handleBind_lockstep engine block len) rfl
  split at hrun
  · exact hrun _ (hsim (handleDescription_lockstep engine block len)) rfl
  split at hrun
  · exact hrun _ (hsim (Lockstep.of_modify _ fun _ _ h => enter_differ engine _ h)) rfl
  · simp_all

theorem readLen_similar (length : Nat) (block : Bytes) {s t : SessionInfo π τ} (h : Differ s t) :
    Similar (s.readLen engine length block) (t.readLen engine length block) := by
  rw [readLen, readLen]
  split
  · exact .inr ⟨h.1, by rw [close, close, h.2]⟩
  · exact readData_similar engine block _ h

theorem readMessage_similar (type : UInt8) (length : Nat) (block : Bytes) {s t : SessionInfo π τ} (h : Differ s t) :
    Similar (s.readMessage engine type length block) (t.readMessage engine type length block) := by
  have hq : Differ { s with qtype := type } { t with qtype := type } := ⟨h.1, by rw [h.2]⟩
  rw [readMessage, readMessage]
  split
  · exact .inr ⟨h.1, by rw [close, close, h.2]⟩
  · exact readLen_similar engine length block hq

end SessionInfo

namespace Server

open SessionInfo (Similar Differ)

variable (engine : Engine π δ τ)

theorem step_similar (e : Event δ) {s t : Server π δ τ} (hdb : s.db = t.db) (h : Similar s.session t.session) :
    (s.step engine e).db = (t.step engine e).db ∧ Similar (s.step engine e).session (t.step engine e).session := by
  obtain ⟨s, db⟩ := s
  obtain ⟨t, db'⟩ := t
  dsimp only at hdb h
  subst hdb
  rcases h with rfl | h
  · exact ⟨rfl, .inl rfl⟩
  have hc : s.control = t.control := by rw [h.2]
  have hp : s.plan = none := by
    rw [h.2]
    exact h.1
  have hkeep : ∀ f : SessionInfo π τ → SessionInfo π τ, (∀ u : SessionInfo π τ, (f u).plan = u.plan) →
      (∀ (u : SessionInfo π τ) (b : Bool), f { u with binded := b } = { f u with binded := b }) → Similar (f s) (f t) := by
    intro f hplan hf
    refine .inr ⟨(hplan t).trans h.1, ?_⟩
    rw [h.2, hf]
  have hclose := hkeep SessionInfo.close (fun _ => rfl) fun _ _ => rfl
  cases e with
  | message type length block =>
    cases htc : t.control <;> simp only [step, hc, htc]
    case reading => exact ⟨trivial, SessionInfo.readMessage_similar engine type length block h⟩
    case readingLength => exact ⟨trivial, SessionInfo.readLen_similar engine length block h⟩
    all_goals exact ⟨trivial, .inr h⟩
  | readError =>
    cases htc : t.control <;> simp only [step, hc, htc] <;>
      first | exact ⟨trivial, hclose⟩ | exact ⟨trivial, .inr h⟩
  | written =>
    cases htc : t.control <;> simp only [step, hc, htc]
    case writing out fn => exact ⟨trivial, .inr (SessionInfo.enter_differ engine fn h)⟩
    all_goals exact ⟨trivial, .inr h⟩
  | writeError =>
    cases htc : t.control <;> simp only [step, hc, htc] <;>
      first | exact ⟨trivial, hclose⟩ | exact ⟨trivial, .inr h⟩
  | tick raised =>
    have hundefined := hkeep (fun u => { u with control := .undefined }) (fun _ => rfl) fun _ _ => rfl
    cases htc : t.control <;> simp only [step, hc, htc, hp, h.1] <;>
      first | exact ⟨trivial, .inr h⟩ | exact ⟨trivial, by simpa only [hp, h.1] using hundefined⟩
  | cancel => exact ⟨rfl, hkeep (fun u => { u with terminate := true }) (fun _ => rfl) fun _ _ => rfl⟩
  | commit db => exact ⟨rfl, .inr h⟩

/-- Whatever happens next, the client and the database see the same. -/
def Indistinguishable (s t : Server π δ τ) : Prop :=
  ∀ es : List (Event δ), (run engine s es).session.control = (run engine t es).session.control ∧
    (run engine s es).db = (run engine t es).db

theorem indistinguishable_of_similar {s t : Server π δ τ} (hdb : s.db = t.db) (h : Similar s.session t.session) :
    Indistinguishable engine s t := by
  intro es
  induction es generalizing s t with
  | nil => exact ⟨h.control_eq, hdb⟩
  | cons e es ih =>
    obtain ⟨hdb', h'⟩ := step_similar engine e hdb h
    exact ih hdb' h'

/-- A session object that served other clients, in any run from any state, and whose last
connection ended without a plan, without the cancel flag and without the mark of a parsed
statement is as good as new. -/
theorem reused_indistinguishable (s0 : Server π δ τ) (es : List (Event δ))
    (hplan : (run engine s0 es).session.plan = none) (hterminate : (run engine s0 es).session.terminate = false)
    (hparsed : (run engine s0 es).session.parsed = false) :
    Indistinguishable engine { run engine s0 es with session := (run engine s0 es).session.start }
      { run engine s0 es with session := SessionInfo.start { index := (run engine s0 es).session.index } } := by
  refine indistinguishable_of_similar engine rfl (.inr ⟨rfl, ?_⟩)
  rw [SessionInfo.start, SessionInfo.start, hplan, hterminate, hparsed]

end Server

/-- A server without tables: a statement is parsed and cannot be planned. -/
def tablelessEngine : Engine Unit Unit Unit :=
  { ignoringEngine with
    parseSql := fun _ => { tree := some (), params := 0, allocs := [], error := none }
    buildPlan := fun _ => throwParse "table t not found" }

/-- A client that executes a statement to its end and leaves after two that cannot be planned; the
second one, a Bind, has set `m_bBinded`. -/
def visitEvents : List (Event Unit) :=
  startupEvents ++
    [.message (char "Q") 10 (bytes "BEGIN" ++ [0]), .tick none, .tick none, .tick none, .written,
      .message (char "Q") 12 (bytes "TABLE t" ++ [0]), .written,
      .message (char "B") 10 [0, 0, 0, 0, 0, 0], .written, .message (char "X") 4 []]

theorem reused_indistinguishable_visit :
    ((Server.run tablelessEngine newServer visitEvents).session.control = .closed ∧
      (Server.run tablelessEngine newServer visitEvents).session.binded = true) ∧
      Server.Indistinguishable tablelessEngine
        { Server.run tablelessEngine newServer visitEvents with
          session := (Server.run tablelessEngine newServer visitEvents).session.start }
        { Server.run tablelessEngine newServer visitEvents with
          session := SessionInfo.start { index := (Server.run tablelessEngine newServer visitEvents).session.index } } :=
  ⟨by decide +kernel, Server.reused_indistinguishable tablelessEngine newServer visitEvents (by decide +kernel)
    (by decide +kernel) (by decide +kernel)⟩

def boundEvents : List (Event Unit) :=
  startupEvents ++ [.message (char "B") 10 [0, 0, 0, 0, 0, 0], .message (char "X") 4 []]

/-- The next client executes that statement. -/
theorem reused_executes :
    (Server.run ignoringEngine newServer boundEvents).session.control = .closed ∧
      ¬ Server.Indistinguishable ignoringEngine
        { Server.run ignoringEngine newServer boundEvents with
          session := (Server.run ignoringEngine newServer boundEvents).session.start }
        { Server.run ignoringEngine newServer boundEvents with
          session := SessionInfo.start { index := (Server.run ignoringEngine newServer boundEvents).session.index } } := by
  refine ⟨by decide +kernel, fun h => ?_⟩
  have hcontrol := (h (startupEvents ++ [.message (char "E") 9 [0, 0, 0, 0, 0], .tick none])).1
  exact absurd hcontrol (by decide +kernel)

end LevelPgServer
