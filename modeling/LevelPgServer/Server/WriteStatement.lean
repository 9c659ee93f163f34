import LevelPgServer.Execution.LevelDBDeletePlan
import LevelPgServer.Server.Portal

namespace LevelPgServer

open ExceptRules

variable {π δ τ σ : Type}

/-- A call of `begin`, `next`, `getResult` or `end` on the plan is the next thing to happen. -/
def Control.Executing : Control → Prop
  | .beginning | .firstNext | .building _ _ | .looping _ _ | .finishing => True
  | _ => False

namespace SessionInfo

theorem not_executing_doWrite (engine : Engine π δ τ) (out : Bytes) (s : SessionInfo π τ) :
    ¬ (s.doWrite engine out .readMessageType).control.Executing := by
  rw [doWrite]
  split
  · exact id
  · exact id

theorem not_executing_caught (engine : Engine π δ τ) (f : Fault) (s : SessionInfo π τ) :
    ¬ (s.caught engine f).control.Executing := by
  cases f with
  | undefined => exact id
  | thrown e =>
    rw [caught]
    split
    · exact id
    · apply not_executing_doWrite

end SessionInfo

/-- What happens to a session that executes a plan: it goes on, or is cancelled. -/
def Event.Internal : Event δ → Prop
  | .tick _ | .cancel => True
  | _ => False

namespace Server

open SessionInfo

variable (engine : Engine π δ τ)

/-- Calls of `next` that have returned true lead from one state of a plan to another. -/
inductive Iterates : π → π → Prop
  | refl (p : π) : Iterates p p
  | step {p q r : π} {raised : Option Nat} (h : Iterates p q) (hn : engine.next raised q = .ok true r) : Iterates p r

/-- Where the execution of `p` stands that began at the database `snapshot`, for a plan
without result columns. -/
inductive Execution (snapshot : δ) (p : π) : Server π δ τ → Prop
  | started {s : Server π δ τ} (hc : s.session.control = .beginning) (hp : s.session.plan = some p)
      (hdb : s.db = snapshot) : Execution snapshot p s
  | running {s : Server π δ τ} {raised : Option Nat} {p1 q : π} (hb : engine.begin raised snapshot p = .ok () p1)
      (hi : Iterates engine p1 q)
      (hc : s.session.control ∈ [Control.firstNext, .building 0 { size := blockSize }, .looping 0 { size := blockSize }])
      (hp : s.session.plan = some q) (hdb : s.db = snapshot) : Execution snapshot p s
  | finishing {s : Server π δ τ} {raised raised' : Option Nat} {p1 q r : π}
      (hb : engine.begin raised snapshot p = .ok () p1) (hi : Iterates engine p1 q)
      (hn : engine.next raised' q = .ok false r) (hc : s.session.control = .finishing) (hp : s.session.plan = some r)
      (hdb : s.db = snapshot) : Execution snapshot p s
  | failed {s : Server π δ τ} {q : π} (hc : ¬ s.session.control.Executing) (hp : s.session.plan = some q)
      (hdb : s.db = snapshot) : Execution snapshot p s
  | endFailed {s : Server π δ τ} {raised raised' : Option Nat} {p1 q r r' : π} {f : Fault}
      (hb : engine.begin raised snapshot p = .ok () p1) (hi : Iterates engine p1 q)
      (hn : engine.next raised' q = .ok false r) (he : engine.end (r, snapshot) = .error f (r', s.db))
      (hc : ¬ s.session.control.Executing) (hp : s.session.plan = some r') : Execution snapshot p s
  | done {s : Server π δ τ} {raised raised' : Option Nat} {p1 q r r' : π}
      (hb : engine.begin raised snapshot p = .ok () p1) (hi : Iterates engine p1 q)
      (hn : engine.next raised' q = .ok false r) (he : engine.end (r, snapshot) = .ok () (r', s.db))
      (hc : ¬ s.session.control.Executing) (hp : s.session.plan = none) : Execution snapshot p s

variable {engine} {snapshot : δ} {p : π}

theorem step_tick_idle {s : Server π δ τ} (h : ¬ s.session.control.Executing) (raised : Option Nat) :
    s.step engine (.tick raised) = s := by
  unfold step
  split <;> simp_all [Control.Executing]

theorem step_tick {s : Server π δ τ} (h : s.session.control.Executing) {q : π} (hp : s.session.plan = some q)
    (raised : Option Nat) : s.step engine (.tick raised) = s.tick engine raised q := by
  cases hc : s.session.control <;> simp_all [Control.Executing, step]

theorem Execution.tick_started {s : Server π δ τ} (hc : s.session.control = .beginning) (hdb : s.db = snapshot)
    (raised : Option Nat) : Execution engine snapshot p (s.tick engine raised p) := by
  rw [tick, hc]
  dsimp only
  cases hb : engine.begin (seen s.session raised) s.db p with
  | ok a q =>
    rw [hdb] at hb
    exact .running hb (.refl q) (by simp) rfl hdb
  | error f q => exact .failed (not_executing_caught engine f _) (caught_plan engine f _) hdb

theorem Execution.tick_running (hcols : ∀ q, engine.getResultColumns q = 0) {s : Server π δ τ} {raised' : Option Nat}
    {p1 q : π} (hb : engine.begin raised' snapshot p = .ok () p1) (hi : Iterates engine p1 q)
    (hc : s.session.control ∈ [Control.firstNext, .building 0 { size := blockSize }, .looping 0 { size := blockSize }])
    (hdb : s.db = snapshot) (raised : Option Nat) : Execution engine snapshot p (s.tick engine raised q) := by
  simp only [List.mem_cons, List.not_mem_nil, or_false] at hc
  obtain hc | hc | hc := hc
  · rw [tick, hc]
    dsimp only
    cases hn : engine.next (seen s.session raised) q with
    | ok more r =>
      cases more with
      | true => exact .running hb (.step hi hn) (by simp [hcols]) rfl hdb
      | false => exact .finishing hb hi hn rfl rfl hdb
    | error f r => exact .failed (not_executing_caught engine f _) (caught_plan engine f _) hdb
  · rw [tick, hc]
    exact .running hb hi (by simp) rfl hdb
  · rw [tick, hc]
    dsimp only
    cases hn : engine.next (seen s.session raised) q with
    | ok more r =>
      cases more with
      | true => exact .running hb (.step hi hn) (by simp) rfl hdb
      | false => exact .finishing hb hi hn rfl rfl hdb
    | error f r => exact .failed (not_executing_caught engine f _) (caught_plan engine f _) hdb

theorem Execution.tick_finishing {s : Server π δ τ} {raised' raised'' : Option Nat} {p1 q r : π}
    (hb : engine.begin raised' snapshot p = .ok () p1) (hi : Iterates engine p1 q)
    (hn : engine.next raised'' q = .ok false r) (hc : s.session.control = .finishing) (hdb : s.db = snapshot)
    (raised : Option Nat) : Execution engine snapshot p (s.tick engine raised r) := by
  rw [tick, hc]
  dsimp only
  rw [handleExecutionDone]
  dsimp only
  rw [hdb]
  cases he : engine.end (r, snapshot) with
  | error f x => exact .endFailed hb hi hn he (not_executing_caught engine f _) (caught_plan engine f _)
  | ok a x =>
    dsimp only
    cases s.session.result with
    | none => exact .done hb hi hn he id rfl
    | some o => exact .done hb hi hn he (not_executing_doWrite engine _ _) (by simp)

theorem Execution.step (hcols : ∀ q, engine.getResultColumns q = 0) {s : Server π δ τ} (h : Execution engine snapshot p s)
    {e : Event δ} (he : e.Internal) : Execution engine snapshot p (s.step engine e) := by
  cases e with
  | cancel =>
    have hstep : s.step engine .cancel = { s with session := { s.session with terminate := true } } := by
      unfold Server.step
      split <;> simp_all
    rw [hstep]
    cases h with
    | started hc hp hdb => exact .started hc hp hdb
    | running hb hi hc hp hdb => exact .running hb hi hc hp hdb
    | finishing hb hi hn hc hp hdb => exact .finishing hb hi hn hc hp hdb
    | failed hc hp hdb => exact .failed hc hp hdb
    | endFailed hb hi hn he hc hp => exact .endFailed hb hi hn he hc hp
    | done hb hi hn he hc hp => exact .done hb hi hn he hc hp
  | tick raised =>
    cases h with
    | started hc hp hdb =>
      rw [step_tick (by rw [hc]; trivial) hp]
      exact tick_started hc hdb raised
    | running hb hi hc hp hdb =>
      have hx : s.session.control.Executing := by
        simp only [List.mem_cons, List.not_mem_nil, or_false] at hc
        obtain hc | hc | hc := hc <;> rw [hc] <;> trivial
      rw [step_tick hx hp]
      exact tick_running hcols hb hi hc hdb raised
    | finishing hb hi hn hc hp hdb =>
      rw [step_tick (by rw [hc]; trivial) hp]
      exact tick_finishing hb hi hn hc hdb raised
    | failed hc hp hdb =>
      rw [step_tick_idle hc]
      exact .failed hc hp hdb
    | endFailed hb hi hn he hc hp =>
      rw [step_tick_idle hc]
      exact .endFailed hb hi hn he hc hp
    | done hb hi hn he hc hp =>
      rw [step_tick_idle hc]
      exact .done hb hi hn he hc hp
  | _ => exact absurd he id

/-- An execution goes through its stages, whatever its calls return and whenever it is
cancelled. -/
theorem Execution.run (hcols : ∀ q, engine.getResultColumns q = 0) {es : List (Event δ)} (hes : ∀ e ∈ es, e.Internal)
    {s : Server π δ τ} (h : Execution engine snapshot p s) : Execution engine snapshot p (s.run engine es) := by
  induction es generalizing s with
  | nil => exact h
  | cons e es ih =>
    exact ih (fun a ha => hes a (List.mem_cons_of_mem e ha)) (h.step hcols (hes e (by simp)))

end Server

end LevelPgServer
