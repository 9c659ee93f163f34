import LevelPgServer.Lib.Runs
import LevelPgServer.Server.BufferUses
import LevelPgServer.Server.Handlers

namespace LevelPgServer

open PostgresProtocol Runs

variable {π δ τ : Type}

namespace SessionInfo

variable (engine : Engine π δ τ)

@[simp] theorem enter_terminate (fn : Continuation) (s : SessionInfo π τ) :
    (s.enter engine fn).terminate = s.terminate := by
  cases fn with
  | handleExecutionResult =>
    rw [enter]
    split <;> rfl
  | _ => rfl

@[simp] theorem doWrite_terminate (out : Bytes) (fn : Continuation) (s : SessionInfo π τ) :
    (s.doWrite engine out fn).terminate = s.terminate := by
  rw [doWrite]
  split
  · exact enter_terminate engine fn s
  · rfl

@[simp] theorem caught_terminate (f : Fault) (s : SessionInfo π τ) : (s.caught engine f).terminate = s.terminate := by
  cases f with
  | undefined => rfl
  | thrown e =>
    rw [caught]
    split
    · rfl
    · exact doWrite_terminate engine _ _ s

theorem Responds.terminate {s t : SessionInfo π τ} {f : Option Fault} {ok : Bool} (h : Responds engine s t f ok) :
    t.terminate = s.terminate := by
  cases h with
  | startup => exact doWrite_terminate engine _ _ s
  | startupFailed => exact caught_terminate engine _ s
  | describeFailed => exact caught_terminate engine _ s
  | queryFailed hq f t ht =>
    rw [caught_terminate]
    obtain ⟨r, rfl⟩ | ⟨r, p, rfl⟩ := ht <;> rfl
  | parseFailed hq f t ht =>
    rw [caught_terminate]
    obtain ⟨r, rfl⟩ := ht
    rfl
  | bindFailed hq f t ht =>
    rw [caught_terminate]
    obtain ⟨r, rfl⟩ | ⟨r, rfl⟩ := ht <;> rfl
  | _ => rfl

theorem readMessage_terminate (type : UInt8) (length : Nat) (block : Bytes) (s : SessionInfo π τ) :
    (s.readMessage engine type length block).terminate = s.terminate := by
  rw [readMessage]
  split
  · rfl
  · exact (readLen_responds engine length block { s with qtype := type }).terminate

end SessionInfo

/-- A statement is about to make its first call. -/
def Control.Pending : Control → Prop
  | .beginning => True
  | .writing _ fn => fn = .handleExecutionBegin
  | _ => False

instance : DecidablePred Control.Pending
  | .writing _ fn => inferInstanceAs (Decidable (fn = .handleExecutionBegin))
  | .beginning => isTrue trivial
  | .reading | .readingLength | .firstNext | .building _ _ | .looping _ _ | .finishing | .closed | .undefined =>
    isFalse id

/-- A statement has made its first call and has not ended. -/
def Control.Begun : Control → Prop
  | .firstNext | .building _ _ | .looping _ _ | .finishing => True
  | .writing _ fn => fn = .handleExecutionResult ∨ fn = .handleExecutionDone
  | _ => False

theorem SessionInfo.caught_not_begun (engine : Engine π δ τ) (f : Fault) (s : SessionInfo π τ) :
    ¬ (s.caught engine f).control.Begun := by
  cases hc : (s.caught engine f).control with
  | writing out fn =>
    have hidle := caught_idle engine f s
    rw [hc] at hidle
    rintro (h | h)
    · exact absurd (hidle.symm.trans h) (by simp)
    · exact absurd (hidle.symm.trans h) (by simp)
  | firstNext | building | looping | finishing =>
    have hidle := caught_idle engine f s
    rw [hc] at hidle
    exact absurd hidle id
  | _ => exact id

namespace Server

open SessionInfo

theorem Ticks.terminate {engine : Engine π δ τ} {raised : Option Nat} {p : π} {s t : Server π δ τ} {f : Option Fault}
    (h : Ticks engine raised p s t f) : t.session.terminate = (s.session.terminate || raised.isSome) := by
  cases h <;> simp [raise]

def Calls (s : Server π δ τ) (e : Event δ) : Prop :=
  s.session.control.Executing ∧ s.session.plan ≠ none ∧ ∃ raised, e = .tick raised

def FirstCall (s : Server π δ τ) (e : Event δ) : Prop := s.session.control = .beginning ∧ Calls s e

/-- A cancel request for the session comes in, perhaps during a call. -/
def Arrives (s : Server π δ τ) (e : Event δ) : Prop := e = .cancel ∨ Calls s e ∧ ∃ n, e = .tick (some n)

variable (engine : Engine π δ τ)

theorem step_terminate (s : Server π δ τ) (e : Event δ) :
    (s.step engine e).session.terminate = true ↔ s.session.terminate = true ∨ Arrives s e := by
  have hsame : ∀ t : Server π δ τ, t.session.terminate = s.session.terminate → ¬ Arrives s e →
      (t.session.terminate = true ↔ s.session.terminate = true ∨ Arrives s e) := by
    intro t ht hn
    rw [ht, or_iff_left hn]
  cases e with
  | cancel => exact iff_of_true (by rw [step]) (.inr (.inl rfl))
  | tick raised =>
    by_cases hc : s.session.control.Executing
    · cases hp : s.session.plan with
      | none =>
        refine hsame _ ?_ (by simp [Arrives, Calls, hp])
        cases h : s.session.control <;> simp_all [Control.Executing, step]
      | some p =>
        have hticks := tick_ticks engine hc raised p
        rw [step_tick hc hp]
        rw [hticks.terminate, Bool.or_eq_true, Option.isSome_iff_exists]
        refine or_congr_right ⟨?_, ?_⟩
        · rintro ⟨n, hn⟩
          exact .inr ⟨⟨hc, by simp [hp], raised, rfl⟩, n, by rw [hn]⟩
        · rintro (hcancel | ⟨-, n, hn⟩)
          · cases hcancel
          · cases hn
            exact ⟨n, rfl⟩
    · rw [step_tick_idle hc]
      exact hsame s rfl (by simp [Arrives, Calls, hc])
  | message type length block =>
    refine hsame _ ?_ (by simp [Arrives])
    cases h : s.session.control with
    | reading =>
      simp only [step, h]
      exact readMessage_terminate engine type length block s.session
    | readingLength =>
      simp only [step, h]
      exact (readLen_responds engine length block s.session).terminate
    | _ => simp only [step, h]
  | readError =>
    refine hsame _ ?_ (by simp [Arrives])
    cases h : s.session.control <;> simp [step, h, close]
  | written =>
    refine hsame _ ?_ (by simp [Arrives])
    cases h : s.session.control with
    | writing out fn =>
      simp only [step, h]
      exact enter_terminate engine _ s.session
    | _ => simp only [step, h]
  | writeError =>
    refine hsame _ ?_ (by simp [Arrives])
    cases h : s.session.control <;> simp [step, h, close]
  | commit db => exact hsame _ rfl (by simp [Arrives])

theorem run_terminate (s : Server π δ τ) (es : List (Event δ)) :
    (run engine s es).session.terminate = true ↔ s.session.terminate = true ∨ Occurs (step engine) Arrives s es := by
  induction es using List.reverseRecOn with
  | nil => simp [run, not_occurs_nil]
  | append_singleton es e ih =>
    rw [run_append, step_terminate, ih, occurs_append, or_assoc]
    rfl

/-- The event is the message that a statement begins with. -/
def Begins (s : Server π δ τ) (e : Event δ) : Prop :=
  ¬ s.session.control.Pending ∧ (s.step engine e).session.control.Pending

instance (s : Server π δ τ) (e : Event δ) : Decidable (Begins engine s e) := inferInstanceAs (Decidable (_ ∧ _))

/-- A cancel request has come in since the last statement began. -/
def CanceledSince : Server π δ τ → List (Event δ) → Prop := Since (step engine) Arrives (Begins engine)

theorem Responds.not_begun {engine : Engine π δ τ} {s t : SessionInfo π τ} {f : Option Fault} {ok : Bool}
    (h : Responds engine s t f ok) : ¬ t.control.Begun := by
  cases h with
  | startup hq out fn hfn =>
    rw [doWrite]
    obtain rfl | rfl := hfn
    · split <;> simp [enter, Control.Begun]
    · split <;> simp [enter, Control.Begun]
  | query hq r p c hc =>
    obtain rfl | ⟨columns, out, -, rfl⟩ := hc <;> simp [Control.Begun]
  | describe hq c hc =>
    obtain rfl | ⟨columns, out, -, rfl⟩ := hc <;> simp [Control.Begun]
  | startupFailed | describeFailed | queryFailed | parseFailed | bindFailed => apply caught_not_begun
  | _ => simp [close, Control.Begun]

theorem readMessage_not_begun (type : UInt8) (length : Nat) (block : Bytes) (s : SessionInfo π τ) :
    ¬ (s.readMessage engine type length block).control.Begun := by
  rw [readMessage]
  split
  · exact id
  · exact Responds.not_begun (readLen_responds engine length block { s with qtype := type })

/-- A statement goes on that has made its first call, or makes it. -/
theorem step_begun {s : Server π δ τ} {e : Event δ} (h : (s.step engine e).session.control.Begun) :
    s.session.control.Begun ∨ FirstCall s e := by
  cases e with
  | cancel | commit => exact .inl (by simpa only [step] using h)
  | tick raised =>
    by_cases hc : s.session.control.Executing
    · cases hp : s.session.plan with
      | none =>
        cases hcontrol : s.session.control <;> simp_all [Control.Executing, step, Control.Begun]
      | some p =>
        cases hcontrol : s.session.control with
        | beginning => exact .inr ⟨hcontrol, hc, by simp [hp], raised, rfl⟩
        | firstNext | building | looping | finishing => exact .inl trivial
        | _ =>
          rw [hcontrol] at hc
          exact absurd hc id
    · rw [step_tick_idle hc] at h
      exact .inl h
  | message type length block =>
    cases hcontrol : s.session.control with
    | reading =>
      simp only [step, hcontrol] at h
      exact absurd h (readMessage_not_begun engine type length block s.session)
    | readingLength =>
      simp only [step, hcontrol] at h
      exact absurd h (Responds.not_begun (readLen_responds engine length block s.session))
    | _ =>
      simp only [step, hcontrol] at h
      exact .inl h
  | readError =>
    cases hcontrol : s.session.control <;> simp_all [step, close, Control.Begun]
  | written =>
    cases hcontrol : s.session.control with
    | writing out fn =>
      simp only [step, hcontrol] at h
      cases fn with
      | handleExecutionResult => exact .inl (.inl rfl)
      | handleExecutionDone => exact .inl (.inr rfl)
      | _ => exact absurd h id
    | _ =>
      simp only [step, hcontrol] at h
      exact .inl h
  | writeError =>
    cases hcontrol : s.session.control <;> simp_all [step, close, Control.Begun]

end Server

def SessionInfo.cleared (s : SessionInfo π τ) : SessionInfo π τ := { s with terminate := false }

/-- A statement has begun and has not ended. -/
def Control.Underway (c : Control) : Prop := c.Pending ∨ c.Begun

/-- What `CheckCancellation` throws. -/
def canceled : Fault := .thrown (.execution "canceled")

/-- The calls of a plan read `m_bTerminate` in `CheckCancellation` alone, `beginChecks` and `nextChecks` times where
it stays unset, and nothing else throws what this throws. -/
structure Engine.Polls (engine : Engine π δ τ) (beginChecks : δ → π → Nat) (nextChecks : π → Nat) : Prop where
  begin_canceled : ∀ db p n, n < beginChecks db p → ∃ q, engine.begin (some n) db p = .error canceled q
  begin_same : ∀ db p n, beginChecks db p ≤ n → engine.begin (some n) db p = engine.begin none db p
  next_canceled : ∀ p n, n < nextChecks p → ∃ q, engine.next (some n) p = .error canceled q
  next_same : ∀ p n, nextChecks p ≤ n → engine.next (some n) p = engine.next none p
  begin_other : ∀ db p q, engine.begin none db p ≠ .error canceled q
  next_other : ∀ p q, engine.next none p ≠ .error canceled q
  end_other : ∀ p db q, engine.end (p, db) ≠ .error canceled q
  row_other : ∀ p columnNum w, buildData engine.conv engine.fmt
    (SessionInfo.currentRow engine p columnNum) w ≠ .error canceled

namespace Server

variable (engine : Engine π δ τ) (beginChecks : δ → π → Nat) (nextChecks : π → Nat)

def checks (s : Server π δ τ) : Nat :=
  match s.session.control, s.session.plan with
  | .beginning, some p => beginChecks s.db p
  | .firstNext, some p | .looping _ _, some p => nextChecks p
  | _, _ => 0

def FailsCanceled (s : Server π δ τ) (e : Event δ) : Prop := Calls s e ∧ s.fault engine e = some canceled

def cleared (s : Server π δ τ) : Server π δ τ := { s with session := s.session.cleared }

/-- What happens to a statement from the message `e` on that it begins with, up to its end at most. -/
structure Statement (s : Server π δ τ) (e : Event δ) (during : List (Event δ)) : Prop where
  begins : Begins engine s e
  underway : AtEach (fun first _ => (run engine (s.step engine e) first).session.control.Underway) during

/-- A cancel request makes at most the statement fail with 'canceled' that executes when it comes in; every other
statement runs to its normal result. -/
def CancelsExecuting (s : Server π δ τ) (es : List (Event δ)) : Prop :=
  ∀ before e during later, es = before ++ e :: during ++ later → Statement engine (run engine s before) e during →
    let t := run engine s (before ++ [e])
    (Occurs (step engine) (FailsCanceled engine) t during → Occurs (step engine) Arrives t during) ∧
      (¬ Occurs (step engine) Arrives t during → (run engine t during).cleared = run engine t.cleared during)

/-- Whenever a call reads the flag, no cancel request has ever come in before, also none for the clients that had the
session before, or one has come in since the statement of the call began. -/
def ReadsOwn (s : Server π δ τ) : List (Event δ) → Prop :=
  AtEach fun before e => Calls (run engine s before) e → 0 < (run engine s before).checks beginChecks nextChecks →
    s.session.terminate = false ∧ ¬ Occurs (step engine) Arrives s before ∨ CanceledSince engine s (before ++ [e])

end Server

namespace SessionInfo

variable (engine : Engine π δ τ)

theorem enter_cleared (fn : Continuation) (s : SessionInfo π τ) :
    (s.enter engine fn).cleared = s.cleared.enter engine fn := by
  cases fn with
  | handleExecutionResult =>
    simp only [enter, cleared]
    cases s.plan <;> rfl
  | _ => rfl

theorem doWrite_cleared (out : Bytes) (fn : Continuation) (s : SessionInfo π τ) :
    (s.doWrite engine out fn).cleared = s.cleared.doWrite engine out fn := by
  rw [doWrite, doWrite]
  split
  · exact enter_cleared engine fn s
  · rfl

theorem caught_cleared (f : Fault) (s : SessionInfo π τ) : (s.caught engine f).cleared = s.cleared.caught engine f := by
  cases f with
  | undefined => rfl
  | thrown e =>
    by_cases hq : s.qtype = 0
    · simp only [caught, if_pos hq]
      exact (if_pos hq).symm
    · simp only [caught, if_neg hq, doWrite_cleared]
      exact (if_neg hq).symm

theorem caught_not_pending (f : Fault) (s : SessionInfo π τ) : ¬ (s.caught engine f).control.Pending := by
  cases hc : (s.caught engine f).control with
  | writing out fn =>
    have hidle := caught_idle engine f s
    rw [hc] at hidle
    intro h
    exact absurd (hidle.symm.trans h) (by simp)
  | beginning =>
    have hidle := caught_idle engine f s
    rw [hc] at hidle
    exact absurd hidle id
  | _ => exact id

theorem doWrite_not_pending {out : Bytes} {fn : Continuation} (hfn : fn ≠ .handleExecutionBegin) (s : SessionInfo π τ) :
    ¬ (s.doWrite engine out fn).control.Pending := by
  rw [doWrite]
  split
  · cases fn with
    | handleExecutionBegin => exact absurd rfl hfn
    | handleExecutionResult =>
      simp only [enter]
      split <;> exact id
    | _ => exact id
  · exact hfn

end SessionInfo

variable {engine : Engine π δ τ} {beginChecks : δ → π → Nat} {nextChecks : π → Nat}

namespace Server

open SessionInfo

theorem Calls.underway {s : Server π δ τ} {e : Event δ} (h : Calls s e) : s.session.control.Underway := by
  have hexecuting := h.1
  cases hc : s.session.control with
  | beginning => exact .inl trivial
  | firstNext | building | looping | finishing => exact .inr trivial
  | _ =>
    rw [hc] at hexecuting
    exact absurd hexecuting id

theorem Ticks.not_pending {raised : Option Nat} {p : π} {s t : Server π δ τ} {f : Option Fault}
    (h : Ticks engine raised p s t f) :
    ¬ t.session.control.Pending := by
  cases h with
  | flushed | ended | done =>
    apply doWrite_not_pending
    simp
  | failed | endFailed => apply caught_not_pending
  | _ => exact id

theorem not_begins_of_underway {s : Server π δ τ} {e : Event δ} (h : s.session.control.Underway) :
    ¬ Begins engine s e := by
  rintro ⟨hnot, hpending⟩
  have hbegun := h.resolve_left hnot
  have hkeep : (s.step engine e).session.control = s.session.control → False := fun hsame => hnot (hsame ▸ hpending)
  cases e with
  | cancel | commit => exact hkeep rfl
  | tick raised =>
    by_cases hc : s.session.control.Executing
    · cases hp : s.session.plan with
      | none => cases hcontrol : s.session.control <;> simp_all [step, Control.Pending]
      | some p =>
        rw [step_tick hc hp] at hpending
        exact (tick_ticks engine hc raised p).not_pending hpending
    · exact hkeep (by rw [step_tick_idle hc])
  | written =>
    cases hcontrol : s.session.control with
    | writing out fn =>
      rw [hcontrol] at hbegun
      simp only [step, hcontrol] at hpending
      obtain rfl | rfl := hbegun
      · simp only [enter] at hpending
        split at hpending <;> exact hpending
      · exact hpending
    | _ => exact hkeep (by simp only [step, hcontrol])
  | message | readError | writeError =>
    cases hcontrol : s.session.control <;> simp_all [step, close, Control.Pending, Control.Begun]

end Server

namespace Engine.Polls

open Server

theorem begin_seen (h : engine.Polls beginChecks nextChecks) {s : Server π δ τ} {p : π}
    (hc : s.session.control = .beginning) (hp : s.session.plan = some p)
    (hs : s.session.terminate = true → s.checks beginChecks nextChecks = 0) :
    engine.begin (seen s.session none) s.db p = engine.begin none s.db p := by
  rw [seen]
  split
  · next ht =>
    have hzero := hs ht
    simp only [checks, hc, hp] at hzero
    exact h.begin_same _ _ 0 hzero.le
  · rfl

theorem next_seen (h : engine.Polls beginChecks nextChecks) {s : Server π δ τ} {p : π}
    (hc : s.session.control = .firstNext ∨ ∃ columnNum w, s.session.control = .looping columnNum w)
    (hp : s.session.plan = some p) (hs : s.session.terminate = true → s.checks beginChecks nextChecks = 0) :
    engine.next (seen s.session none) p = engine.next none p := by
  rw [seen]
  split
  · next ht =>
    have hzero : nextChecks p = 0 := by
      have hzero := hs ht
      obtain hc | ⟨columnNum, w, hc⟩ := hc <;> simpa only [checks, hc, hp] using hzero
    exact h.next_same _ 0 hzero.le
  · rfl

/-- A call that reads no flag that is set does not fail with 'canceled'. -/
theorem fault_ne (h : engine.Polls beginChecks nextChecks) {s : Server π δ τ}
    (hs : s.session.terminate = true → s.checks beginChecks nextChecks = 0) :
    s.fault engine (.tick none) ≠ some canceled := by
  rw [fault]
  cases hp : s.session.plan with
  | none => simp
  | some p =>
    rw [Option.bind_some, tickFault]
    cases hc : s.session.control with
    | beginning =>
      dsimp only
      rw [h.begin_seen hc hp hs]
      cases hcall : engine.begin none s.db p with
      | ok => simp
      | error f q =>
        rintro ⟨⟩
        exact h.begin_other _ _ _ hcall
    | firstNext =>
      dsimp only
      rw [h.next_seen (.inl hc) hp hs]
      cases hcall : engine.next none p with
      | ok => simp
      | error f q =>
        rintro ⟨⟩
        exact h.next_other _ _ hcall
    | looping columnNum w =>
      dsimp only
      rw [h.next_seen (.inr ⟨columnNum, w, hc⟩) hp hs]
      cases hcall : engine.next none p with
      | ok => simp
      | error f q =>
        rintro ⟨⟩
        exact h.next_other _ _ hcall
    | building columnNum w =>
      dsimp only
      split
      · simp
      · cases hcall : buildData engine.conv engine.fmt (SessionInfo.currentRow engine p columnNum) w with
        | ok => simp
        | error f =>
          rintro ⟨⟩
          exact h.row_other _ _ _ hcall
    | finishing =>
      dsimp only
      cases hcall : engine.end (p, s.db) with
      | ok => simp
      | error f q =>
        rintro ⟨⟩
        exact h.end_other _ _ _ hcall
    | _ => simp

theorem fault_eq (h : engine.Polls beginChecks nextChecks) {s : Server π δ τ} (ht : s.session.terminate = true)
    (hs : 0 < s.checks beginChecks nextChecks) (raised : Option Nat) :
    s.fault engine (.tick raised) = some canceled := by
  have hseen : seen s.session raised = some 0 := by rw [seen, if_pos ht]
  rw [fault]
  cases hp : s.session.plan with
  | none => cases hc : s.session.control <;> simp [checks, hp, hc] at hs
  | some p =>
    rw [Option.bind_some, tickFault]
    cases hc : s.session.control with
    | beginning =>
      simp only [checks, hc, hp] at hs
      obtain ⟨q, hcall⟩ := h.begin_canceled _ _ 0 hs
      simp only [hseen, hcall]
    | firstNext | looping =>
      simp only [checks, hc, hp] at hs
      obtain ⟨q, hcall⟩ := h.next_canceled _ 0 hs
      simp only [hseen, hcall]
    | _ => simp [checks, hc] at hs

end Engine.Polls

namespace Server

open SessionInfo

theorem tick_cleared (h : engine.Polls beginChecks nextChecks) {s : Server π δ τ} {p : π} (hp : s.session.plan = some p)
    (hs : s.session.terminate = true → s.checks beginChecks nextChecks = 0) :
    (s.tick engine none p).cleared = s.cleared.tick engine none p := by
  have hcleared : seen s.cleared.session none = none := rfl
  rw [tick, tick]
  have hcontrol : s.cleared.session.control = s.session.control := rfl
  rw [hcontrol]
  cases hc : s.session.control with
  | beginning =>
    dsimp only
    rw [h.begin_seen hc hp hs, hcleared]
    have hdb : s.cleared.db = s.db := rfl
    rw [hdb]
    cases engine.begin none s.db p with
    | ok => rfl
    | error f q => exact congrArg (Server.mk · s.db) (caught_cleared engine f _)
  | firstNext =>
    dsimp only
    rw [h.next_seen (.inl hc) hp hs, hcleared]
    cases engine.next none p with
    | ok more => cases more <;> rfl
    | error f q => exact congrArg (Server.mk · s.db) (caught_cleared engine f _)
  | looping columnNum w =>
    dsimp only
    rw [h.next_seen (.inr ⟨columnNum, w, hc⟩) hp hs, hcleared]
    cases engine.next none p with
    | ok more =>
      cases more with
      | true => rfl
      | false => exact congrArg (Server.mk · s.db) (doWrite_cleared engine _ _ _)
    | error f q => exact congrArg (Server.mk · s.db) (caught_cleared engine f _)
  | building columnNum w =>
    dsimp only
    split
    · rfl
    · cases buildData engine.conv engine.fmt (currentRow engine p columnNum) w with
      | error f => exact congrArg (Server.mk · s.db) (caught_cleared engine f _)
      | ok w =>
        dsimp only
        split
        · exact congrArg (Server.mk · s.db) (doWrite_cleared engine _ _ _)
        · rfl
  | finishing =>
    dsimp only
    rw [handleExecutionDone, handleExecutionDone]
    have hdb : s.cleared.db = s.db := rfl
    dsimp only
    rw [hdb]
    cases engine.end (p, s.db) with
    | error f q => exact congrArg (Server.mk · q.2) (caught_cleared engine f _)
    | ok u q =>
      have hresult : s.cleared.session.result = s.session.result := rfl
      dsimp only
      rw [hresult]
      cases s.session.result with
      | none => rfl
      | some r => exact congrArg (Server.mk · q.2) (doWrite_cleared engine _ _ _)
  | _ => rfl

/-- As long as no cancel request comes in and no call reads a flag that is set, the flag makes no difference. -/
theorem step_cleared (h : engine.Polls beginChecks nextChecks) {s : Server π δ τ} {e : Event δ}
    (hu : s.session.control.Underway) (hn : ¬ Arrives s e)
    (hs : Calls s e → s.session.terminate = true → s.checks beginChecks nextChecks = 0) :
    (s.step engine e).cleared = s.cleared.step engine e := by
  have hcontrol : s.cleared.session.control = s.session.control := rfl
  cases e with
  | cancel => exact absurd (.inl rfl) hn
  | commit db => rfl
  | tick raised =>
    by_cases hc : s.session.control.Executing
    · cases hp : s.session.plan with
      | none => cases hc' : s.session.control <;> simp_all [step, cleared, SessionInfo.cleared]
      | some p =>
        have hcalls : Calls s (.tick raised) := ⟨hc, by simp [hp], raised, rfl⟩
        cases raised with
        | some n => exact absurd (.inr ⟨hcalls, n, rfl⟩) hn
        | none =>
          rw [step_tick hc hp, step_tick (s := s.cleared) hc hp]
          exact tick_cleared h hp (hs hcalls)
    · rw [step_tick_idle hc, step_tick_idle (s := s.cleared) hc]
  | written =>
    cases hc : s.session.control with
    | writing out fn =>
      simp only [step, hc, hcontrol]
      exact congrArg (Server.mk · s.db) (enter_cleared engine fn s.session)
    | _ => simp only [step, hc, hcontrol]
  | writeError =>
    cases hc : s.session.control with
    | writing out fn =>
      simp only [step, hc, hcontrol]
      rfl
    | _ => simp only [step, hc, hcontrol]
  | readError | message =>
    cases hc : s.session.control with
    | reading | readingLength =>
      rw [hc] at hu
      exact (hu.elim id id).elim
    | _ => simp only [step, hc, hcontrol]

theorem run_split (s : Server π δ τ) (before : List (Event δ)) (b : Event δ) (first : List (Event δ)) :
    run engine s (before ++ b :: first) = run engine ((run engine s before).step engine b) first := by
  rw [run, List.foldl_append, List.foldl_cons]
  rfl

theorem exists_statement {s : Server π δ τ} (hs : ¬ s.session.control.Underway) {es : List (Event δ)}
    (h : (run engine s es).session.control.Underway) :
    ∃ before e during, es = before ++ e :: during ∧ Statement engine (run engine s before) e during := by
  induction es using List.reverseRecOn with
  | nil => exact absurd h hs
  | append_singleton es e ih =>
    by_cases hbegins : Begins engine (run engine s es) e
    · exact ⟨es, e, [], rfl, hbegins, atEach_nil⟩
    · have hunderway : (run engine s es).session.control.Underway := by
        by_contra hnot
        rw [run_append] at h
        obtain hpending | hbegun := h
        · exact hbegins ⟨fun hp => hnot (.inl hp), hpending⟩
        · obtain hold | hfirst := step_begun engine hbegun
          · exact hnot (.inr hold)
          · exact hnot hfirst.2.underway
      obtain ⟨before, c, during, rfl, hstatement⟩ := ih hunderway
      refine ⟨before, c, during ++ [e], by simp, hstatement.begins, atEach_append.mpr ⟨hstatement.underway, ?_⟩⟩
      rwa [run_split] at hunderway

theorem Statement.not_begins {s : Server π δ τ} {e : Event δ} {during : List (Event δ)}
    (h : Statement engine s e during) :
    ∀ first c rest, during = first ++ c :: rest → ¬ Begins engine (run engine (s.step engine e) first) c :=
  fun first c rest hsplit => not_begins_of_underway (h.underway first c rest hsplit)

theorem Statement.not_arrives {s : Server π δ τ} {e : Event δ} {during : List (Event δ)}
    (h : Statement engine s e during) :
    ¬ Arrives s e := by
  rintro (rfl | ⟨hcalls, -⟩)
  · exact h.begins.1 h.begins.2
  · exact not_begins_of_underway hcalls.underway h.begins

theorem Statement.left {s : Server π δ τ} {e : Event δ} {during rest : List (Event δ)}
    (h : Statement engine s e (during ++ rest)) : Statement engine s e during := ⟨h.begins, h.underway.left⟩

/-- While no cancel request comes in, no call of the statement reads a flag that is set. -/
theorem checks_eq_zero {s : Server π δ τ} {before during : List (Event δ)} (later : List (Event δ)) {b e : Event δ}
    (hreads : ReadsOwn engine beginChecks nextChecks s (before ++ b :: during ++ e :: later))
    (hstatement : Statement engine (run engine s before) b (during ++ [e]))
    (hnone : ¬ Occurs (step engine) Arrives (run engine s (before ++ [b])) (during ++ [e]))
    (hcalls : Calls (run engine s (before ++ b :: during)) e)
    (ht : (run engine s (before ++ b :: during)).session.terminate = true) :
    (run engine s (before ++ b :: during)).checks beginChecks nextChecks = 0 := by
  by_contra hchecks
  obtain ⟨hfalse, hnever⟩ | hsince := hreads _ e later rfl hcalls (Nat.pos_of_ne_zero hchecks)
  · obtain hs | harrives := (run_terminate engine s _).mp ht
    · rw [hfalse] at hs
      cases hs
    · exact hnever harrives
  · rw [List.append_assoc, List.cons_append] at hsince
    obtain harrives | hoccurs := hsince.occurs_after hstatement.begins
    · exact hstatement.not_arrives harrives
    · exact hnone hoccurs

/-- The flag is never cleared: a cancel request stops the statement that executes, and whatever reads the flag after
it. -/
theorem cancelsExecuting_iff (hpolls : engine.Polls beginChecks nextChecks) (s : SessionInfo π τ) (db : δ)
    (es : List (Event δ)) :
    CancelsExecuting engine ⟨s.start, db⟩ es ↔ ReadsOwn engine beginChecks nextChecks ⟨s.start, db⟩ es := by
  constructor
  · intro h before e later hes hcalls hchecks
    rw [or_iff_not_imp_right]
    intro hsince
    have hlate : ¬ (run engine ⟨s.start, db⟩ before).session.terminate = true := by
      intro ht
      obtain ⟨first, b, during, rfl, hstatement⟩ :=
        exists_statement (s := ⟨s.start, db⟩) (by rintro (h | h) <;> exact h) hcalls.underway
      have hwhole : Statement engine (run engine ⟨s.start, db⟩ first) b (during ++ [e]) := by
        refine ⟨hstatement.begins, atEach_append.mpr ⟨hstatement.underway, ?_⟩⟩
        rw [← run_split]
        exact hcalls.underway
      obtain ⟨raised, rfl⟩ := hcalls.2.2
      have hfails : FailsCanceled engine (run engine ⟨s.start, db⟩ (first ++ b :: during)) (.tick raised) :=
        ⟨hcalls, hpolls.fault_eq ht hchecks raised⟩
      have harrives : Occurs (step engine) Arrives
        (run engine ⟨s.start, db⟩ (first ++ [b])) (during ++ [.tick raised]) := by
        refine (h first b (during ++ [.tick raised]) later (by simp [hes]) hwhole).1 (occurs_append.mpr (.inr ?_))
        rw [run_split] at hfails
        rwa [run_append]
      refine hsince ?_
      rw [CanceledSince, List.append_assoc, List.cons_append]
      refine harrives.since fun first' c rest hsplit => ?_
      have hnot := hwhole.not_begins first' c rest hsplit
      rwa [← run_split] at hnot
    rw [run_terminate, not_or, Bool.not_eq_true] at hlate
    exact hlate
  · intro h before b during later hes hstatement
    dsimp only
    rw [run_append]
    have hchecks : ∀ first e rest, during = first ++ e :: rest →
        ¬ Occurs (step engine) Arrives ((run engine ⟨s.start, db⟩ before).step engine b) during →
        Calls (run engine ((run engine ⟨s.start, db⟩ before).step engine b) first) e →
        (run engine ((run engine ⟨s.start, db⟩ before).step engine b) first).session.terminate = true →
        (run engine ((run engine ⟨s.start, db⟩ before).step engine b) first).checks beginChecks nextChecks = 0 := by
      rintro first e rest rfl hnone hcalls ht
      rw [← run_split] at hcalls ht ⊢
      have hwhole : Statement engine (run engine ⟨s.start, db⟩ before) b ((first ++ [e]) ++ rest) := by
        simpa using hstatement
      refine checks_eq_zero (rest ++ later) (by simpa [hes] using h) hwhole.left ?_ hcalls ht
      · rintro ⟨first', c, rest', hsplit, harrives⟩
        rw [run_append] at harrives
        exact hnone ⟨first', c, rest' ++ rest,
          by rw [← List.cons_append, ← List.append_assoc, ← hsplit]; simp, harrives⟩
    constructor
    · rintro ⟨first, e, rest, hsplit, hcalls, hfault⟩
      by_contra hnone
      obtain ⟨raised, rfl⟩ := hcalls.2.2
      cases raised with
      | some n => exact hnone ⟨first, _, rest, hsplit, .inr ⟨hcalls, n, rfl⟩⟩
      | none => exact hpolls.fault_ne (hchecks first _ rest hsplit hnone hcalls) hfault
    · intro hnone
      have hrun : ∀ first rest, during = first ++ rest →
          (run engine ((run engine ⟨s.start, db⟩ before).step engine b) first).cleared =
            run engine ((run engine ⟨s.start, db⟩ before).step engine b).cleared first := by
        intro first
        induction first using List.reverseRecOn with
        | nil => exact fun _ _ => rfl
        | append_singleton first e ih =>
          intro rest hsplit
          rw [List.append_assoc, List.singleton_append] at hsplit
          rw [run_append, run_append, ← ih (e :: rest) hsplit]
          exact step_cleared hpolls (hstatement.underway first e rest hsplit) (fun ha =>
            hnone ⟨first, e, rest, hsplit, ha⟩)
            (hchecks first e rest hsplit hnone)
      exact hrun during [] (List.append_nil _).symm

end Server

/-- `ShowTables::next` reads the flag once, `EmptyPlan` never. -/
def showTablesChecks (p : Option Nat) : Nat := if p.isSome then 1 else 0

theorem showTables_polls : showTablesEngine.Polls (fun _ _ => 0) showTablesChecks where
  begin_canceled _ _ _ h := absurd h (Nat.not_lt_zero _)
  begin_same _ _ _ _ := rfl
  next_canceled p n h := by
    cases p with
    | none => exact absurd h (Nat.not_lt_zero _)
    | some i =>
      obtain rfl : n = 0 := Nat.lt_one_iff.mp h
      exact ⟨some i, rfl⟩
  next_same p n h := by
    cases p with
    | none => rfl
    | some i =>
      obtain ⟨m, rfl⟩ := Nat.exists_eq_add_of_le' (show 1 ≤ n from h)
      rfl
  begin_other _ _ _ := by rintro ⟨⟩
  next_other p q := by cases p <;> rintro ⟨⟩
  end_other _ _ _ := by rintro ⟨⟩
  row_other p columnNum w := by
    cases columnNum with
    | zero => rintro ⟨⟩
    | succ n =>
      rw [SessionInfo.currentRow, List.range_succ_eq_map, List.map_cons]
      rintro ⟨⟩

/-- A client that is late with a cancel request, and then sets a variable. -/
def setLateEvents : List (Event Unit) :=
  startupEvents ++ [.cancel, .message (char "Q") 10 (bytes "SET x" ++ [0]), .tick none, .tick none,
    .tick none, .written]

/-- The statement runs to its normal result, for its plan never reads the flag. -/
theorem cancelsExecuting_iff_setLate :
    Server.CancelsExecuting showTablesEngine ⟨SessionInfo.start { index := 0 }, ()⟩ setLateEvents := by
  refine (Server.cancelsExecuting_iff showTables_polls _ () setLateEvents).mpr fun before e later hes _ hchecks => ?_
  have hnever : ∀ before ∈ setLateEvents.inits,
      (Server.run showTablesEngine ⟨SessionInfo.start { index := 0 }, ()⟩ before).checks
        (fun _ _ => 0) showTablesChecks = 0 := by
    decide +kernel
  rw [hnever before ((List.mem_inits _ _).mpr ⟨e :: later, hes.symm⟩)] at hchecks
  exact absurd hchecks (lt_irrefl 0)

def showTables : Event Unit := .message (char "Q") 16 (bytes "SHOW TABLES" ++ [0])

def firstQuery : List (Event Unit) := showTablesEvents ++ [.tick none, .written, .cancel]

def lateCancelEvents : List (Event Unit) := firstQuery ++ [showTables, .written]

/-- The second is canceled instead. -/
theorem lateCancel_canceled :
    ¬ Server.CancelsExecuting showTablesEngine ⟨SessionInfo.start { index := 0 }, ()⟩
        (lateCancelEvents ++ [.tick none, .tick none]) ∧
      (Server.run showTablesEngine ⟨SessionInfo.start { index := 0 }, ()⟩ (lateCancelEvents ++ [.tick none])).fault
        showTablesEngine (.tick none) = some canceled := by
  have hfault : (Server.run showTablesEngine ⟨SessionInfo.start { index := 0 }, ()⟩
      (lateCancelEvents ++ [.tick none])).fault showTablesEngine (.tick none) = some canceled := by decide +kernel
  have hbegins : Server.Begins showTablesEngine
      (Server.run showTablesEngine ⟨SessionInfo.start { index := 0 }, ()⟩ firstQuery)
      showTables := by decide +kernel
  have hpending : ∀ first ∈ [[], [Event.written]],
      (Server.run showTablesEngine ⟨SessionInfo.start { index := 0 }, ()⟩
        (firstQuery ++ showTables :: first)).session.control.Pending := by
    decide +kernel
  have hnext : (Server.run showTablesEngine ⟨SessionInfo.start { index := 0 }, ()⟩
      (firstQuery ++ showTables :: [.written, .tick none])).session.control = .firstNext := by decide +kernel
  have hplan : (Server.run showTablesEngine ⟨SessionInfo.start { index := 0 }, ()⟩
      (firstQuery ++ showTables :: [.written, .tick none])).session.plan ≠ none := by decide +kernel
  refine ⟨fun h => ?_, hfault⟩
  have hes : lateCancelEvents ++ [.tick none] = firstQuery ++ showTables :: [.written, .tick none] := rfl
  rw [hes] at hfault
  rw [Server.run_split] at hnext hplan hfault
  simp only [Server.run_split] at hpending
  have harrives := h firstQuery showTables [.written, .tick none, .tick none] [] (by simp [lateCancelEvents])
  simp only [Server.run_append] at harrives
  generalize Server.run showTablesEngine ⟨SessionInfo.start { index := 0 }, ()⟩ firstQuery = s at *
  have hstatement : Server.Statement showTablesEngine s showTables [.written, .tick none, .tick none] := by
    refine ⟨hbegins, Runs.atEach_cons.mpr ⟨.inl (hpending [] (by simp)), Runs.atEach_cons.mpr
      ⟨.inl (hpending [.written] (by simp)), Runs.atEach_cons.mpr ⟨.inr ?_, atEach_nil⟩⟩⟩⟩
    rw [hnext]
    trivial
  have hfails : Server.FailsCanceled showTablesEngine _ (.tick none) :=
    ⟨⟨by rw [hnext]; trivial, hplan, none, rfl⟩, hfault⟩
  obtain ⟨first, e, rest, hsplit, hcancel | ⟨-, n, htick⟩⟩ :=
    (harrives hstatement).1 ⟨[.written, .tick none], .tick none, [], rfl, hfails⟩
  · have hmem : e ∈ [Event.written, .tick none, .tick none] := hsplit ▸ by simp
    rw [hcancel] at hmem
    simp at hmem
  · have hmem : e ∈ [Event.written, .tick none, .tick none] := hsplit ▸ by simp
    rw [htick] at hmem
    simp at hmem

end LevelPgServer
