import LevelPgServer.Lib.Runs
import LevelPgServer.Server.Handlers

namespace LevelPgServer

open PostgresProtocol Runs

variable {π δ τ : Type}

def Event.commits (db : δ) : Event δ → δ
  | .commit db => db
  | _ => db

namespace SessionInfo

/-- The session with another control, and without its parse result when it is closed. -/
structure Unchanged (s t : SessionInfo π τ) : Prop where
  plan : t.plan = s.plan
  parsed : t.parsed = s.parsed
  binded : t.binded = s.binded
  result : t.control = .closed ∨ t.result = s.result

theorem Unchanged.refl (s : SessionInfo π τ) : Unchanged s s := ⟨rfl, rfl, rfl, .inr rfl⟩

theorem unchanged_close (s : SessionInfo π τ) : Unchanged s s.close := ⟨rfl, rfl, rfl, .inl rfl⟩

theorem doWrite_unchanged (engine : Engine π δ τ) (out : Bytes) (s : SessionInfo π τ) :
    Unchanged s (s.doWrite engine out .readMessageType) := by
  rw [doWrite]
  split
  · exact ⟨rfl, rfl, rfl, .inr rfl⟩
  · exact ⟨rfl, rfl, rfl, .inr rfl⟩

theorem caught_unchanged (engine : Engine π δ τ) (f : Fault) (s : SessionInfo π τ) : Unchanged s (s.caught engine f) := by
  cases f with
  | undefined => exact ⟨rfl, rfl, rfl, .inr rfl⟩
  | thrown e =>
    rw [caught]
    split
    · exact unchanged_close s
    · exact doWrite_unchanged engine _ s

@[simp] theorem doWrite_qtype (engine : Engine π δ τ) (out : Bytes) (fn : Continuation) (s : SessionInfo π τ) :
    (s.doWrite engine out fn).qtype = s.qtype := by
  rw [doWrite]
  split
  · cases fn with
    | handleExecutionResult =>
      rw [enter]
      split <;> rfl
    | _ => rfl
  · rfl

/-- A Sync, a Describe and a message that is not known leave everything as it is. -/
theorem Responds.unchanged {engine : Engine π δ τ} {s t : SessionInfo π τ} {f : Option Fault} {ok : Bool}
    (h : Responds engine s t f ok) (hq : s.qtype ∉ [0, char "P", char "B", char "E", char "Q"]) :
    Unchanged s t ∧ t.control.Idle ∧ (t.control ≠ .closed → s.qtype ∈ [char "S", char "D"]) := by
  have hqtype : ∀ {c : UInt8}, s.qtype = c → c ∈ [0, char "P", char "B", char "E", char "Q"] → False := by
    rintro _ rfl hc
    exact hq hc
  cases h with
  | closed => exact ⟨unchanged_close s, trivial, fun h => absurd rfl h⟩
  | sync hS => exact ⟨⟨rfl, rfl, rfl, .inr rfl⟩, rfl, fun _ => by simp [hS]⟩
  | describe hD c hc =>
    refine ⟨⟨rfl, rfl, rfl, .inr rfl⟩, ?_, fun _ => by simp [hD]⟩
    obtain rfl | ⟨columns, out, -, rfl⟩ := hc
    · trivial
    · rfl
  | describeFailed hD f => exact ⟨caught_unchanged engine f s, caught_idle engine f s, fun _ => by simp [hD]⟩
  | startup h0 | startupFailed h0 => exact (hqtype h0 (by decide)).elim
  | query hQ | queryFailed hQ => exact (hqtype hQ (by decide)).elim
  | parse hP | parseFailed hP => exact (hqtype hP (by decide)).elim
  | bind hB | bindFailed hB => exact (hqtype hB (by decide)).elim
  | execute hE => exact (hqtype hE (by decide)).elim

end SessionInfo

def Control.Writing : Control → Prop
  | .writing _ _ => True
  | _ => False

namespace Server

open SessionInfo

variable (engine : Engine π δ τ)

def Receives (types : List UInt8) (s : Server π δ τ) (e : Event δ) : Prop := ∃ m ∈ s.received e, m.1.qtype ∈ types

instance (types : List UInt8) (s : Server π δ τ) (e : Event δ) : Decidable (Receives types s e) :=
  inferInstanceAs (Decidable (∃ m ∈ s.received e, _))

def Executes (s : Server π δ τ) (e : Event δ) : Prop := s.session.control.Executing ∧ ∃ raised, e = .tick raised

def BeginsSending (s : Server π δ τ) (e : Event δ) : Prop :=
  ¬ s.session.control.Writing ∧ (s.step engine e).session.control.Writing

def commands : List UInt8 := [char "P", char "B", char "E", char "Q"]

/-- What one event does to an idle session that is handed no command. -/
structure Rests (s : Server π δ τ) (e : Event δ) (t : Server π δ τ) : Prop where
  unchanged : Unchanged s.session t.session
  idle : t.session.control.Idle
  db : t.db = e.commits s.db
  sends : t.session.control.Writing → s.session.control.Writing ∨ Receives [char "S", char "D"] s e

theorem step_rests {s : Server π δ τ} (hs : s.session.control.Idle) {e : Event δ} (he : ¬ Receives commands s e) :
    Rests s e (s.step engine e) := by
  have hsame : e.commits s.db = s.db → Rests s e s := fun hdb =>
    ⟨.refl s.session, hs, hdb.symm, .inl⟩
  cases e with
  | cancel => exact ⟨⟨rfl, rfl, rfl, .inr rfl⟩, hs, rfl, .inl⟩
  | commit db => exact ⟨.refl s.session, hs, rfl, .inl⟩
  | tick raised =>
    have hidle : ¬ s.session.control.Executing := by
      intro hexecuting
      cases hc : s.session.control <;> simp_all [Control.Idle, Control.Executing]
    rw [step_tick_idle hidle]
    exact hsame rfl
  | message type length block =>
    cases hc : s.session.control with
    | reading =>
      simp only [step, hc]
      rw [readMessage]
      split
      · exact ⟨⟨rfl, rfl, rfl, .inl rfl⟩, trivial, rfl, False.elim⟩
      · next htype =>
        have hreceived := received_reading hc htype length block
        have hq : ({ s.session with qtype := type } : SessionInfo π τ).qtype ∉
            [0, char "P", char "B", char "E", char "Q"] := by
          rw [List.mem_cons, not_or]
          exact ⟨(not_or.mp htype).2, fun h => he ⟨_, hreceived, h⟩⟩
        obtain ⟨⟨hplan, hparsed, hbinded, hresult⟩, hidle, hanswer⟩ :=
          Responds.unchanged (readLen_responds engine length block { s.session with qtype := type }) hq
        refine ⟨⟨hplan, hparsed, hbinded, hresult⟩, hidle, rfl, fun hwriting => .inr ⟨_, hreceived, hanswer ?_⟩⟩
        intro hclosed
        rw [hclosed] at hwriting
        exact hwriting
    | readingLength =>
      rw [hc] at hs
      exact hs.elim
    | _ =>
      simp only [step, hc]
      exact hsame rfl
  | readError =>
    cases hc : s.session.control with
    | reading =>
      simp only [step, hc]
      exact ⟨unchanged_close s.session, trivial, rfl, False.elim⟩
    | readingLength =>
      rw [hc] at hs
      exact hs.elim
    | _ =>
      simp only [step, hc]
      exact hsame rfl
  | written =>
    cases hc : s.session.control with
    | writing out fn =>
      rw [hc] at hs
      cases hs
      simp only [step, hc]
      exact ⟨⟨rfl, rfl, rfl, .inr rfl⟩, trivial, rfl, False.elim⟩
    | _ =>
      simp only [step, hc]
      exact hsame rfl
  | writeError =>
    cases hc : s.session.control with
    | writing out fn =>
      simp only [step, hc]
      exact ⟨unchanged_close s.session, trivial, rfl, False.elim⟩
    | _ =>
      simp only [step, hc]
      exact hsame rfl

def NoneReceived (types : List UInt8) (s : Server π δ τ) : List (Event δ) → Prop :=
  AtEach fun before e => ¬ Receives types (run engine s before) e

/-- Nothing is executed, nothing is sent but answers to messages of these types, and plan, parse state and
database are as before, but for what other sessions commit. -/
structure AtRest (answered : List UInt8) (s : Server π δ τ) (es : List (Event δ)) : Prop where
  executes : AtEach (fun before e => ¬ Executes (run engine s before) e) es
  sends : AtEach (fun before e => BeginsSending engine (run engine s before) e → Receives answered (run engine s before) e) es
  unchanged : Unchanged s.session (run engine s es).session
  db : (run engine s es).db = es.foldl Event.commits s.db

theorem not_executes_of_idle {s : Server π δ τ} (hs : s.session.control.Idle) (e : Event δ) : ¬ Executes s e := by
  rintro ⟨hexecuting, -⟩
  cases hc : s.session.control <;> simp_all [Control.Idle, Control.Executing]

theorem atRest_of_idle {s : Server π δ τ} (hs : s.session.control.Idle) {es : List (Event δ)}
    (hes : NoneReceived engine commands s es) :
    AtRest engine [char "S", char "D"] s es ∧ (run engine s es).session.control.Idle := by
  induction es using List.reverseRecOn with
  | nil => exact ⟨⟨atEach_nil, atEach_nil, .refl s.session, rfl⟩, hs⟩
  | append_singleton es e ih =>
    obtain ⟨hes, he⟩ := atEach_append.mp hes
    obtain ⟨hrest, hidle⟩ := ih hes
    obtain ⟨hunchanged, hidle', hdb, hsends⟩ := step_rests engine hidle he
    have hexecutes := atEach_append.mpr ⟨hrest.executes, not_executes_of_idle hidle e⟩
    have hsends' := atEach_append.mpr ⟨hrest.sends, fun h => (hsends h.2).resolve_left h.1⟩
    refine ⟨⟨hexecutes, hsends', ?_, ?_⟩, by rwa [run_append]⟩
    · rw [run_append]
      refine ⟨hunchanged.plan.trans hrest.unchanged.plan, hunchanged.parsed.trans hrest.unchanged.parsed,
        hunchanged.binded.trans hrest.unchanged.binded, ?_⟩
      obtain hclosed | hresult := hrest.unchanged.result
      · exact .inl (step_closed hclosed e)
      · exact hunchanged.result.imp_right fun h => h.trans hresult
    · rw [run_append, hdb, hrest.db, List.foldl_append]
      rfl

theorem Responds.caught {engine : Engine π δ τ} {s t : SessionInfo π τ} {f : Fault} {ok : Bool}
    (h : Responds engine s t (some f) ok) : ∃ u : SessionInfo π τ, t = u.caught engine f := by
  cases h with
  | startupFailed | describeFailed => exact ⟨s, rfl⟩
  | queryFailed hq f u | parseFailed hq f u | bindFailed hq f u => exact ⟨u, rfl⟩

theorem Ticks.caught {engine : Engine π δ τ} {raised : Option Nat} {p : π} {s t : Server π δ τ} {f : Fault}
    (h : Ticks engine raised p s t (some f)) : ∃ u : SessionInfo π τ, t.session = u.caught engine f := by
  cases h with
  | failed | endFailed => exact ⟨_, rfl⟩

theorem caught_of_fault {s : Server π δ τ} {e : Event δ} {f : Fault} (h : s.fault engine e = some f) :
    ∃ u : SessionInfo π τ, (s.step engine e).session = u.caught engine f := by
  cases e with
  | message type length block =>
    cases hc : s.session.control with
    | reading =>
      have hfault : s.fault engine (.message type length block) =
          if type = char "X" ∨ type = 0 then none
          else ({ s.session with qtype := type } : SessionInfo π τ).fault engine length block := by
        simp only [fault, hc]
      rw [hfault] at h
      split at h
      · cases h
      · next htype =>
        rw [step_received (received_reading hc htype length block)]
        have hresponds := readLen_responds engine length block { s.session with qtype := type }
        rw [h] at hresponds
        exact Responds.caught hresponds
    | readingLength =>
      simp only [fault, hc] at h
      simp only [step, hc]
      have hresponds := readLen_responds engine length block s.session
      rw [h] at hresponds
      exact Responds.caught hresponds
    | _ => simp [fault, hc] at h
  | tick raised =>
    obtain ⟨p, hp, hf⟩ := Option.bind_eq_some_iff.mp h
    have hc : s.session.control.Executing := by
      cases hc : s.session.control <;> simp_all [tickFault, Control.Executing]
    have hticks := tick_ticks engine hc raised p
    rw [hf] at hticks
    rw [step_tick hc hp]
    exact hticks.caught
  | _ => simp [fault] at h

/-- There is no waiting for a Sync after an error: the server is at rest until the next command. -/
theorem atRest_of_error {s : Server π δ τ} {e : Event δ} {x : Exn} (hfault : s.fault engine e = some (.thrown x))
    (hq : (s.step engine e).session.qtype ∈ [char "P", char "B", char "D", char "E"]) :
    (∃ u : SessionInfo π τ, (s.step engine e).session =
        u.doWrite engine (buildException blockSize (what x) (startPos x) false) .readMessageType) ∧
      ∀ es, NoneReceived engine commands (s.step engine e) es →
        AtRest engine [char "S", char "D"] (s.step engine e) es := by
  obtain ⟨u, hu⟩ := caught_of_fault engine hfault
  have hqtype : (u.caught engine (.thrown x)).qtype = u.qtype := by
    rw [caught]
    split
    · rfl
    · exact doWrite_qtype engine _ _ u
  rw [hu, hqtype] at hq
  refine ⟨⟨u, ?_⟩, fun es hes => (atRest_of_idle engine ?_ hes).1⟩
  · have h0 : u.qtype ≠ 0 := by
      rintro h0
      rw [h0] at hq
      exact absurd hq (by decide)
    have hQ : u.qtype ≠ char "Q" := by
      rintro hQ
      rw [hQ] at hq
      exact absurd hq (by decide)
    rw [hu, caught, if_neg h0, decide_eq_false hQ]
  · rw [hu]
    exact caught_idle engine _ u

end Server

def badParse : Event Unit := .message (char "P") 9 [0, 120, 0, 0, 0]

theorem atRest_of_error_badParse :
    Server.AtRest ignoringEngine [char "S", char "D"]
      ((Server.run ignoringEngine newServer startupEvents).step ignoringEngine badParse)
      [.written, .message (char "S") 4 [], .written] := by
  have hfault : (Server.run ignoringEngine newServer startupEvents).fault ignoringEngine badParse =
      some (.thrown (parseError "syntax error")) := by decide +kernel
  refine (Server.atRest_of_error ignoringEngine hfault (by decide +kernel)).2 _ ?_
  rw [Server.NoneReceived]
  simp only [atEach_cons]
  exact ⟨by decide +kernel, by decide +kernel, by decide +kernel, atEach_nil⟩

/-- The client has pipelined a Bind and an Execute behind the Parse. -/
def pipelined : List (Event Unit) :=
  [.written, .message (char "B") 10 [0, 0, 0, 0, 0, 0], .message (char "E") 9 [0, 0, 0, 0, 0], .tick none, .tick none, .tick none]

/-- They are handled before a Sync has come: a plan is built, executed and reported. -/
theorem pipelined_not_atRest :
    ((Server.run ignoringEngine newServer startupEvents).fault ignoringEngine badParse).isSome = true ∧
      Server.NoneReceived ignoringEngine [char "S"] (Server.run ignoringEngine newServer (startupEvents ++ [badParse])) pipelined ∧
        ¬ Server.AtRest ignoringEngine [] (Server.run ignoringEngine newServer (startupEvents ++ [badParse])) pipelined ∧
          (Server.run ignoringEngine newServer (startupEvents ++ [badParse] ++ pipelined)).session.control =
            .writing (buildExecutionDone blockSize false true (bytes "SELECT 0") false) .readMessageType := by
  refine ⟨by decide +kernel, ?_, fun h => ?_, by decide +kernel⟩
  · rw [pipelined, Server.NoneReceived]
    simp only [atEach_cons]
    exact ⟨by decide +kernel, by decide +kernel, by decide +kernel, by decide +kernel, by decide +kernel, by decide +kernel,
      atEach_nil⟩
  · refine h.executes (pipelined.take 3) (.tick none) _ rfl ⟨?_, none, rfl⟩
    have hc : (Server.run ignoringEngine (Server.run ignoringEngine newServer (startupEvents ++ [badParse]))
        (pipelined.take 3)).session.control = .beginning := by decide +kernel
    rw [hc]
    trivial

end LevelPgServer
