import LevelPgServer.Server.ErrorRecovery
import LevelPgServer.Server.Messages

namespace LevelPgServer

open PostgresProtocol PgDataWriter Runs

variable {π δ τ : Type}

/-- A statement is being executed, or its description is being sent. -/
def Control.serving : Control → Bool
  | .beginning | .firstNext | .building _ _ | .looping _ _ | .finishing => true
  | .writing _ fn => fn == .handleExecutionBegin || fn == .handleExecutionResult || fn == .handleExecutionDone
  | _ => false

/-- The startup is over, and a writer holds rows and nothing else. -/
def Control.Ordinary : Control → Prop
  | .readingLength => False
  | .writing _ fn => fn ≠ .readLen
  | .building _ w | .looping _ w => ∃ n, Holds (List.replicate n (char "D")) w
  | _ => True

def Control.sent : Control → List UInt8
  | .writing out _ => types out
  | _ => []

/-- The connection is open. -/
def Control.Open (c : Control) : Prop := c ≠ .closed ∧ c ≠ .undefined

/-- The texts of the exception fit in an error response. -/
def Exn.Short (x : Exn) : Prop :=
  (SessionInfo.what x).length + (intText (SessionInfo.startPos x)).length + 40 ≤ blockSize

namespace SessionInfo

variable (engine : Engine π δ τ)

theorem ordinary_enter {fn : Continuation} (hfn : fn ≠ .readLen) (s : SessionInfo π τ) : (s.enter engine fn).control.Ordinary := by
  cases fn with
  | readLen => exact absurd rfl hfn
  | handleExecutionResult =>
    rw [enter]
    split
    · trivial
    · exact ⟨0, holds_new⟩
  | _ => trivial

theorem doWrite_of_types {out : Bytes} (h : types out ≠ []) (fn : Continuation) (s : SessionInfo π τ) :
    s.doWrite engine out fn = { s with control := .writing out fn } := by
  rw [doWrite, if_neg]
  rintro rfl
  exact h rfl

def pending (s : SessionInfo π τ) : Nat := if s.qtype = char "Q" ∧ s.control.serving = true then 1 else 0

/-- The session with what it begins to send: `n` answers that end a Sync or a Query are accounted for, and no
Parse or Bind is acknowledged. -/
structure Sent (n : Nat) (s : SessionInfo π τ) : Prop where
  ordinary : s.control.Ordinary
  ready : s.control.Open → s.control.sent.count (char "Z") + s.pending = n
  deferred : char "1" ∉ s.control.sent ∧ char "2" ∉ s.control.sent

theorem Sent.of_control {n : Nat} {s : SessionInfo π τ} {c : Control} (hc : s.control = c) (hordinary : c.Ordinary)
    (hsent : c.sent = []) (hn : c.Open → s.pending = n) : Sent n s := by
  subst hc
  refine ⟨hordinary, fun h => ?_, ?_⟩
  · rw [hsent, hn h]
    simp
  · rw [hsent]
    simp

theorem Sent.of_writing {n : Nat} {s : SessionInfo π τ} {out : Bytes} (fn : Continuation) (hc : s.control = .writing out fn)
    (hfn : fn ≠ .readLen) {ts : List UInt8} (hts : types out = ts) (hn : ts.count (char "Z") + s.pending = n)
    (h12 : char "1" ∉ ts ∧ char "2" ∉ ts) : Sent n s := by
  refine ⟨?_, fun _ => ?_, ?_⟩
  · rw [hc]
    exact hfn
  · rw [hc, Control.sent, hts, hn]
  · rw [hc, Control.sent, hts]
    exact h12

theorem sent_caught {f : Fault} (hf : ∀ x, f = .thrown x → x.Short) (s : SessionInfo π τ) :
    Sent (if s.qtype = char "Q" then 1 else 0) (s.caught engine f) := by
  cases f with
  | undefined => exact .of_control rfl trivial rfl fun h => absurd rfl h.2
  | thrown x =>
    by_cases h0 : s.qtype = 0
    · rw [caught, if_pos h0]
      exact .of_control rfl trivial rfl fun h => absurd rfl h.1
    · have htypes := types_exception (hf x rfl) (decide (s.qtype = char "Q"))
      rw [caught, if_neg h0, doWrite_of_types engine (by rw [htypes]; simp)]
      refine .of_writing .readMessageType rfl (by simp) htypes ?_ ?_
      · by_cases hq : s.qtype = char "Q"
        · simp [hq, pending, Control.serving, char, bytes]
        · rw [if_neg hq, decide_eq_false hq]
          simp [pending, Control.serving, char, bytes]
      · by_cases hq : s.qtype = char "Q"
        · simp [hq, char, bytes]
        · rw [decide_eq_false hq]
          simp [char, bytes]

/-- A message is answered, or its answer is pending. -/
theorem Responds.sent {s t : SessionInfo π τ} {f : Option Fault} {ok : Bool} (h : Responds engine s t f ok)
    (h0 : s.qtype ≠ 0) (hf : ∀ x, f = some (.thrown x) → x.Short) :
    Sent (if s.qtype = char "S" ∨ s.qtype = char "Q" then 1 else 0) t := by
  have hcaught : ∀ (f' : Fault) (u : SessionInfo π τ), f = some f' → u.qtype = s.qtype → s.qtype ≠ char "S" →
      Sent (if s.qtype = char "S" ∨ s.qtype = char "Q" then 1 else 0) (u.caught engine f') := by
    intro f' u hf' hu hS
    have hsent := sent_caught engine (fun x hx => hf x (hf'.trans (congrArg some hx))) u
    rw [hu] at hsent
    simpa [hS] using hsent
  cases h with
  | closed => exact .of_control rfl trivial rfl fun h => absurd rfl h.1
  | startup hq | startupFailed hq => exact absurd hq h0
  | sync hq =>
    refine .of_writing .readMessageType rfl (by simp) types_sync ?_ (by decide)
    rw [if_pos (.inl hq)]
    simp [pending, Control.serving]
  | query hq r p c hc =>
    rw [if_pos (.inr hq)]
    obtain rfl | ⟨columns, out, hout, rfl⟩ := hc
    · exact .of_control rfl trivial rfl fun _ => by simp [pending, hq, Control.serving]
    · refine .of_writing .handleExecutionBegin rfl (by simp) (types_description hout) ?_ (by decide)
      simp [pending, hq, Control.serving, char, bytes]
  | parse hq r =>
    refine .of_control rfl trivial rfl fun _ => ?_
    simp [pending, hq, Control.serving, char, bytes]
  | bind hq r p =>
    refine .of_control rfl trivial rfl fun _ => ?_
    simp [pending, hq, Control.serving, char, bytes]
  | describe hq c hc =>
    obtain rfl | ⟨columns, out, hout, rfl⟩ := hc
    · refine .of_control rfl trivial rfl fun _ => ?_
      simp [pending, hq, Control.serving, char, bytes]
    · refine .of_writing .readMessageType rfl (by simp) (types_description hout) ?_ (by decide)
      simp [pending, hq, Control.serving, char, bytes]
  | execute hq =>
    refine .of_control rfl trivial rfl fun _ => ?_
    simp [pending, hq, Control.serving, char, bytes]
  | queryFailed hq f' t ht =>
    refine hcaught f' t rfl ?_ (by rw [hq]; decide)
    obtain ⟨r, rfl⟩ | ⟨r, p, rfl⟩ := ht
    · rfl
    · rfl
  | parseFailed hq f' t ht =>
    refine hcaught f' t rfl ?_ (by rw [hq]; decide)
    obtain ⟨r, rfl⟩ := ht
    rfl
  | bindFailed hq f' t ht =>
    refine hcaught f' t rfl ?_ (by rw [hq]; decide)
    obtain ⟨r, rfl⟩ | ⟨r, rfl⟩ := ht
    · rfl
    · rfl
  | describeFailed hq f' => exact hcaught f' s rfl rfl (by rw [hq]; decide)

theorem pending_enter {s : SessionInfo π τ} {out : Bytes} {fn : Continuation} (hc : s.control = .writing out fn)
    (hopen : (s.enter engine fn).control.Open) : (s.enter engine fn).pending = s.pending := by
  cases fn with
  | handleExecutionResult =>
    cases hplan : s.plan with
    | none =>
      simp only [enter, hplan] at hopen
      exact absurd rfl hopen.2
    | some p => simp [enter, hplan, pending, hc, Control.serving]
  | _ => simp [enter, pending, hc, Control.serving]

theorem sent_rows {n : Nat} {out : Bytes} (hout : types out = List.replicate n (char "D")) {fn : Continuation}
    (hfn : fn = .handleExecutionResult ∨ fn = .handleExecutionDone) (s : SessionInfo π τ) :
    Sent (if s.qtype = char "Q" then 1 else 0) (s.doWrite engine out fn) := by
  by_cases hnil : out = []
  · rw [doWrite, if_pos hnil]
    obtain rfl | rfl := hfn
    · cases hplan : s.plan with
      | none => exact .of_control (c := .undefined) (by simp only [enter, hplan]) trivial rfl fun h => absurd rfl h.2
      | some p =>
        refine .of_control (c := .building (engine.getResultColumns p) { size := blockSize }) (by simp only [enter, hplan])
          ⟨0, holds_new⟩ rfl fun _ => ?_
        simp [pending, Control.serving, enter, hplan]
    · exact .of_control rfl trivial rfl fun _ => by simp [pending, Control.serving, enter]
  · rw [doWrite, if_neg hnil]
    refine .of_writing fn rfl (by obtain rfl | rfl := hfn <;> simp) hout ?_ ?_
    · obtain rfl | rfl := hfn <;> simp [pending, Control.serving, List.count_replicate, char, bytes]
    · simp [List.mem_replicate, char, bytes]

end SessionInfo

namespace Server

open SessionInfo

variable (engine : Engine π δ τ)

def completion (parsed binded sync : Bool) : List UInt8 :=
  (if parsed then [char "1"] else []) ++ (if binded then [char "2"] else []) ++ [char "C"] ++ (if sync then [char "Z"] else [])

theorem count_completion (parsed binded sync : Bool) :
    (completion parsed binded sync).count (char "Z") = if sync = true then 1 else 0 := by
  cases parsed <;> cases binded <;> cases sync <;> decide

/-- What a call on a plan sends while the execution does not end: rows, or an error. -/
theorem Ticks.sent {engine : Engine π δ τ} {raised : Option Nat} {p : π} {s t : Server π δ τ} {f : Option Fault}
    (h : Ticks engine raised p s t f) (hs : s.session.control.Ordinary) (hf : ∀ x, f = some (.thrown x) → x.Short)
    (hplan : s.session.plan = some p) (hends : ¬ Ends engine s (.tick raised)) :
    Sent (if s.session.qtype = char "Q" then 1 else 0) t.session := by
  have hcaught : ∀ (g : Fault) (q : π), f = some g →
      Sent (if s.session.qtype = char "Q" then 1 else 0) (SessionInfo.caught engine g { raise raised s.session with plan := some q }) :=
    fun g q hg => sent_caught engine (fun x hx => hf x (hg.trans (congrArg some hx)))
      { raise raised s.session with plan := some q }
  cases h with
  | begun hc | noRow hc => exact .of_control rfl trivial rfl fun _ => by simp [pending, Control.serving, raise]
  | lost hc => exact .of_control rfl trivial rfl fun h => absurd rfl h.2
  | row hc => exact .of_control rfl ⟨0, holds_new⟩ rfl fun _ => by simp [pending, Control.serving, raise]
  | skipped hc | again hc =>
    rw [hc] at hs
    exact .of_control rfl hs rfl fun _ => by simp [pending, Control.serving, raise]
  | built hc hn hbuild hw =>
    rw [hc] at hs
    obtain ⟨n, hn⟩ := hs
    exact .of_control rfl ⟨n + 1, (holds_buildData hn hbuild).1 hw⟩ rfl fun _ => by simp [pending, Control.serving, raise]
  | flushed hc hn hbuild hw =>
    rw [hc] at hs
    obtain ⟨n, hn⟩ := hs
    exact sent_rows engine ((holds_buildData hn hbuild).2 hw) (.inl rfl) (raise raised s.session)
  | @ended _ _ hc q =>
    rw [hc] at hs
    obtain ⟨n, hn⟩ := hs
    exact sent_rows engine hn.types_prepared (.inr rfl) { raise raised s.session with plan := some q }
  | failed hc q g => exact hcaught g q rfl
  | endFailed hc => exact hcaught _ _ rfl
  | done hc hend hr => exact absurd ⟨_, ⟨raised, rfl⟩, hc, hr, p, _, _, hplan, hend⟩ hends

theorem step_ends (hinfo : ∀ q, (engine.getInfoString q).length + 22 ≤ blockSize) {s : Server π δ τ} {e : Event δ}
    (h : Ends engine s e) :
    ∃ q r db out, types out = completion s.session.parsed s.session.binded (s.session.qtype = char "Q") ∧
      s.step engine e = ⟨{ s.session with
        plan := none
        result := r
        terminate := q
        parsed := false
        binded := false
        control := .writing out .readMessageType }, db⟩ := by
  obtain ⟨r, ⟨raised, rfl⟩, hc, hr, p, q, db, hplan, hend⟩ := h
  have htypes := types_executionDone s.session.parsed s.session.binded (hinfo q) (s.session.qtype = char "Q")
  refine ⟨s.session.terminate || raised.isSome, some r.restore, db, _, htypes, ?_⟩
  simp only [step, hc, hplan, tick, handleExecutionDone, hend, hr]
  rw [doWrite_of_types engine (by rw [htypes]; simp)]

/-- The types of the messages that the server begins to send. -/
def replies (s : Server π δ τ) (e : Event δ) : List UInt8 :=
  match s.session.control with
  | .writing _ _ => []
  | _ => (s.step engine e).session.control.sent

def allReplies : Server π δ τ → List (Event δ) → List UInt8
  | _, [] => []
  | s, e :: es => replies engine s e ++ allReplies (s.step engine e) es

theorem allReplies_append (s : Server π δ τ) (es : List (Event δ)) (e : Event δ) :
    allReplies engine s (es ++ [e]) = allReplies engine s es ++ replies engine (run engine s es) e := by
  induction es generalizing s with
  | nil => simp [allReplies, run]
  | cons x es ih =>
    rw [List.cons_append, allReplies, allReplies, ih, List.append_assoc]
    rfl

def requests (s : Server π δ τ) (e : Event δ) : Nat := if Receives [char "S", char "Q"] s e then 1 else 0

def allRequests : Server π δ τ → List (Event δ) → Nat
  | _, [] => 0
  | s, e :: es => requests s e + allRequests (s.step engine e) es

theorem allRequests_append (s : Server π δ τ) (es : List (Event δ)) (e : Event δ) :
    allRequests engine s (es ++ [e]) = allRequests engine s es + requests (run engine s es) e := by
  induction es generalizing s with
  | nil => simp [allRequests, run]
  | cons x es ih =>
    rw [List.cons_append, allRequests, allRequests, ih, Nat.add_assoc]
    rfl

structure Accounts (s : Server π δ τ) (e : Event δ) : Prop where
  ordinary : (s.step engine e).session.control.Ordinary
  ready : (s.step engine e).session.control.Open →
    (replies engine s e).count (char "Z") + (s.step engine e).session.pending = s.session.pending + requests s e
  deferred : char "1" ∈ replies engine s e ∨ char "2" ∈ replies engine s e → Ends engine s e
  completion : Ends engine s e →
    replies engine s e = completion s.session.parsed s.session.binded (s.session.qtype = char "Q")

theorem not_ends {s : Server π δ τ} {e : Event δ} (h : s.session.control ≠ .finishing) : ¬ Ends engine s e := by
  rintro ⟨r, -, hc, -⟩
  exact h hc

theorem replies_eq {s : Server π δ τ} (hs : ¬ s.session.control.Writing) (e : Event δ) :
    replies engine s e = (s.step engine e).session.control.sent := by
  cases hc : s.session.control with
  | writing out fn =>
    rw [hc] at hs
    exact absurd trivial hs
  | _ => rw [replies, hc]

theorem accounts_of_sent {s : Server π δ τ} {e : Event δ} (hs : ¬ s.session.control.Writing)
    (h : Sent (s.session.pending + requests s e) (s.step engine e).session) (hends : ¬ Ends engine s e) :
    Accounts engine s e := by
  have hreplies := replies_eq engine hs e
  refine ⟨h.ordinary, fun hopen => ?_, fun h12 => ?_, fun hend => absurd hend hends⟩
  · rw [hreplies]
    exact h.ready hopen
  · rw [hreplies] at h12
    exact (h12.elim h.deferred.1 h.deferred.2).elim

/-- What is not sent yet stays to be sent. -/
theorem accounts_of_writing {s : Server π δ τ} {out : Bytes} {fn : Continuation} (hc : s.session.control = .writing out fn)
    {e : Event δ} (h : (s.step engine e).session.control.Ordinary)
    (hpending : (s.step engine e).session.control.Open → (s.step engine e).session.pending = s.session.pending) :
    Accounts engine s e := by
  have hreplies : replies engine s e = [] := by rw [replies, hc]
  have hrequests : requests s e = 0 := by
    rw [requests, if_neg]
    rintro ⟨m, hm, -⟩
    cases e <;> simp [received, hc] at hm
  refine ⟨h, fun hopen => ?_, fun h12 => ?_, fun hend => absurd hend (not_ends engine (by simp [hc]))⟩
  · rw [hreplies, hrequests, hpending hopen]
    simp
  · rw [hreplies] at h12
    simp at h12

theorem requests_of_received {s : Server π δ τ} {e : Event δ} {m : SessionInfo π τ × Nat × Bytes} (h : s.received e = some m) :
    requests s e = if m.1.qtype = char "S" ∨ m.1.qtype = char "Q" then 1 else 0 := by
  simp [requests, Receives, h]

theorem requests_of_none {s : Server π δ τ} {e : Event δ} (h : s.received e = none) : requests s e = 0 := by
  simp [requests, Receives, h]

theorem sent_same {s : Server π δ τ} (hs : ¬ s.session.control.Writing) (hordinary : s.session.control.Ordinary)
    {e : Event δ} (hcontrol : (s.step engine e).session.control = s.session.control)
    (hqtype : (s.step engine e).session.qtype = s.session.qtype) (he : s.received e = none) :
    Sent (s.session.pending + requests s e) (s.step engine e).session := by
  rw [requests_of_none he]
  refine .of_control hcontrol hordinary ?_ fun _ => by rw [pending, hcontrol, hqtype, pending]; rfl
  cases hc : s.session.control with
  | writing out fn =>
    rw [hc] at hs
    exact absurd trivial hs
  | _ => rfl

theorem accounts_message {s : Server π δ τ} (hc : s.session.control = .reading) {type : UInt8} {length : Nat}
    {block : Bytes} (hf : ∀ x, s.fault engine (.message type length block) = some (.thrown x) → x.Short) :
    Accounts engine s (.message type length block) := by
  have hwriting : ¬ s.session.control.Writing := by
    rw [hc]
    exact id
  have hends : ¬ Ends engine s (.message type length block) := not_ends engine (by simp [hc])
  have hpending : s.session.pending = 0 := by simp [pending, hc, Control.serving]
  by_cases htype : type = char "X" ∨ type = 0
  · refine accounts_of_sent engine hwriting (.of_control (c := .closed) ?_ trivial rfl fun h => absurd rfl h.1) hends
    simp only [step, hc]
    rw [readMessage, if_pos htype]
    rfl
  · have hreceived := received_reading hc htype length block
    have hfault : s.fault engine (.message type length block) =
        ({ s.session with qtype := type } : SessionInfo π τ).fault engine length block := by
      simp only [fault, hc]
      rw [if_neg htype]
    refine accounts_of_sent engine hwriting ?_ hends
    rw [hpending, Nat.zero_add, requests_of_received hreceived, step_received hreceived]
    exact Responds.sent engine (readLen_responds engine length block { s.session with qtype := type })
      (not_or.mp htype).2 fun x hx => hf x (hfault.trans hx)

theorem accounts_tick (hinfo : ∀ q, (engine.getInfoString q).length + 22 ≤ blockSize) {s : Server π δ τ}
    (hs : s.session.control.Ordinary) (hexecuting : s.session.control.Executing) {raised : Option Nat}
    (hf : ∀ x, s.fault engine (.tick raised) = some (.thrown x) → x.Short) : Accounts engine s (.tick raised) := by
  have hwriting : ¬ s.session.control.Writing := by
    intro hwriting
    cases hc : s.session.control <;> simp_all [Control.Writing, Control.Executing]
  have hpending : s.session.pending = if s.session.qtype = char "Q" then 1 else 0 := by
    have hserving : s.session.control.serving = true := by
      cases hc : s.session.control <;> simp_all [Control.serving, Control.Executing]
    simp [pending, hserving]
  have hrequests : requests s (.tick raised) = 0 := requests_of_none rfl
  cases hplan : s.session.plan with
  | none =>
    have hcontrol : (s.step engine (.tick raised)).session.control = .undefined := by
      cases hc : s.session.control <;> simp_all [step, Control.Executing]
    refine accounts_of_sent engine hwriting (.of_control hcontrol trivial rfl fun h => absurd rfl h.2) ?_
    rintro ⟨r, -, -, -, p, -, -, hp, -⟩
    rw [hplan] at hp
    cases hp
  | some p =>
    have hfault : s.fault engine (.tick raised) = s.tickFault engine raised p := by simp [fault, hplan]
    by_cases hends : Ends engine s (.tick raised)
    · obtain ⟨q, r, db, out, hout, hsession⟩ := step_ends engine hinfo hends
      have hreplies := replies_eq engine hwriting (.tick raised)
      rw [hsession, Control.sent, hout] at hreplies
      refine ⟨?_, fun hopen => ?_, fun _ => hends, fun _ => hreplies⟩
      · rw [hsession]
        exact fun h => by cases h
      · rw [hreplies, count_completion, hsession, hpending, hrequests]
        simp [pending, Control.serving]
    · refine accounts_of_sent engine hwriting ?_ hends
      rw [hpending, hrequests, step_tick hexecuting hplan raised]
      exact (tick_ticks engine hexecuting raised p).sent hs (fun x hx => hf x (hfault.trans hx)) hplan hends

theorem accounts_step (hinfo : ∀ q, (engine.getInfoString q).length + 22 ≤ blockSize) {s : Server π δ τ}
    (hs : s.session.control.Ordinary) {e : Event δ} (hf : ∀ x, s.fault engine e = some (.thrown x) → x.Short) :
    Accounts engine s e := by
  by_cases hwriting : s.session.control.Writing
  · cases hc : s.session.control with
    | writing out fn =>
      rw [hc] at hs
      cases e with
      | written =>
        refine accounts_of_writing engine hc ?_ fun hopen => ?_
        · simp only [step, hc]
          exact ordinary_enter engine hs s.session
        · simp only [step, hc] at hopen ⊢
          exact pending_enter engine hc hopen
      | writeError =>
        refine accounts_of_writing engine hc ?_ fun hopen => ?_
        · simp only [step, hc]
          trivial
        · simp only [step, hc] at hopen
          exact absurd rfl hopen.1
      | cancel | commit => exact accounts_of_writing engine hc (by simp only [step, hc]; exact hs) fun _ => rfl
      | _ => exact accounts_of_writing engine hc (by simp only [step, hc]; exact hs) fun _ => by simp only [step, hc]
    | _ =>
      rw [hc] at hwriting
      exact hwriting.elim
  have hsame : s.step engine e = s → s.received e = none → Accounts engine s e := by
    intro hstep hreceived
    refine accounts_of_sent engine hwriting (sent_same engine hwriting hs (by rw [hstep]) (by rw [hstep]) hreceived) ?_
    intro hends
    obtain ⟨q, r, db, out, -, hnext⟩ := step_ends engine hinfo hends
    rw [hstep] at hnext
    rw [hnext] at hwriting
    exact hwriting trivial
  cases e with
  | cancel | commit =>
    refine accounts_of_sent engine hwriting (sent_same engine hwriting hs rfl rfl rfl) ?_
    rintro ⟨r, ⟨raised, hraised⟩, -⟩
    cases hraised
  | tick raised =>
    by_cases hexecuting : s.session.control.Executing
    · exact accounts_tick engine hinfo hs hexecuting hf
    · exact hsame (step_tick_idle hexecuting raised) rfl
  | message type length block =>
    cases hc : s.session.control with
    | reading => exact accounts_message engine hc hf
    | readingLength =>
      rw [hc] at hs
      exact hs.elim
    | _ => exact hsame (by simp only [step, hc]) (by simp only [received, hc])
  | readError =>
    cases hc : s.session.control with
    | reading =>
      refine accounts_of_sent engine hwriting (.of_control (c := .closed) ?_ trivial rfl fun h => absurd rfl h.1)
        (not_ends engine (by simp [hc]))
      simp only [step, hc]
      rfl
    | readingLength =>
      rw [hc] at hs
      exact hs.elim
    | _ => exact hsame (by simp only [step, hc]) rfl
  | written | writeError =>
    cases hc : s.session.control with
    | writing out fn =>
      rw [hc] at hwriting
      exact absurd trivial hwriting
    | _ => exact hsame (by simp only [step, hc]) rfl

/-- The event hands the session a message of the type, and it is handled without an error. -/
def Accepts (type : UInt8) (s : Server π δ τ) (e : Event δ) : Prop :=
  ∃ m ∈ s.received e, m.1.qtype = type ∧ m.1.succeeds engine m.2.1 m.2.2 = true

instance (type : UInt8) (s : Server π δ τ) (e : Event δ) : Decidable (Accepts engine type s e) :=
  inferInstanceAs (Decidable (∃ m ∈ s.received e, _))

/-- What one event does to the two flags. -/
structure Flags (s : Server π δ τ) (e : Event δ) (t : SessionInfo π τ) : Prop where
  parsed : t.parsed = true → Accepts engine (char "P") s e ∨ s.session.parsed = true ∧ ¬ Ends engine s e
  parses : Accepts engine (char "P") s e ∨ s.session.parsed = true ∧ ¬ (Ends engine s e ∨ Receives [char "Q"] s e) → t.parsed = true
  binded : t.binded = true →
    Receives [char "B"] s e ∨ s.session.binded = true ∧ ¬ (Ends engine s e ∨ Accepts engine (char "P") s e)
  binds : Accepts engine (char "B") s e ∨ s.session.binded = true ∧
    ¬ (Ends engine s e ∨ Accepts engine (char "P") s e ∨ Receives [char "Q"] s e) → t.binded = true

theorem flags_of_eq {s : Server π δ τ} {e : Event δ} {t : SessionInfo π τ} (he : s.received e = none)
    (hends : ¬ Ends engine s e) (hparsed : t.parsed = s.session.parsed) (hbinded : t.binded = s.session.binded) :
    Flags engine s e t := by
  have haccepts : ∀ type, ¬ Accepts engine type s e := by
    rintro type ⟨m, hm, -⟩
    rw [he] at hm
    cases hm
  have hreceives : ∀ types, ¬ Receives types s e := by
    rintro types ⟨m, hm, -⟩
    rw [he] at hm
    cases hm
  constructor <;> simp [hparsed, hbinded, haccepts, hreceives, hends]

theorem caught_flags (f : Fault) (s : SessionInfo π τ) :
    (s.caught engine f).parsed = s.parsed ∧ (s.caught engine f).binded = s.binded :=
  ⟨(caught_unchanged engine f s).parsed, (caught_unchanged engine f s).binded⟩

theorem Responds.flags {s : Server π δ τ} {e : Event δ} {m : SessionInfo π τ} {length : Nat} {block : Bytes}
    (he : s.received e = some (m, length, block)) (hends : ¬ Ends engine s e) (h0 : m.qtype ≠ 0) (hparsed : m.parsed = s.session.parsed)
    (hbinded : m.binded = s.session.binded) {t : SessionInfo π τ} {f : Option Fault}
    (h : Responds engine m t f (m.succeeds engine length block)) : Flags engine s e t := by
  have haccepts : ∀ type, Accepts engine type s e ↔ m.qtype = type ∧ m.succeeds engine length block = true := by
    simp [Accepts, he]
  have hreceives : ∀ type, Receives [type] s e ↔ m.qtype = type := by
    simp [Receives, he]
  generalize m.succeeds engine length block = ok at h haccepts
  have hkept : (ok = true → m.qtype ≠ char "P" ∧ m.qtype ≠ char "B") → t.parsed = m.parsed → t.binded = m.binded → Flags engine s e t := by
    intro hok hp hb
    constructor <;> simp only [haccepts, hreceives, hends, hp, hb, hparsed, hbinded] <;> tauto
  have hcleared : m.qtype = char "Q" → t.parsed = false → t.binded = false → Flags engine s e t := by
    intro hq hp hb
    constructor <;> simp [haccepts, hreceives, hq, hp, hb, char, bytes]
  have hbound : m.qtype = char "B" → t.parsed = s.session.parsed → t.binded = true → Flags engine s e t := by
    intro hq hp hb
    constructor <;> simp +contextual [haccepts, hreceives, hends, hq, hp, hb, char, bytes]
  cases h with
  | closed => exact hkept (by simp) rfl rfl
  | startup hq | startupFailed hq => exact absurd hq h0
  | sync hq | execute hq => exact hkept (by simp [hq, char, bytes]) rfl rfl
  | query hq r p c hc => exact hcleared hq rfl rfl
  | parse hq r =>
    constructor <;> simp [haccepts, hreceives, hq, char, bytes]
  | bind hq r p => exact hbound hq hparsed rfl
  | describe hq c hc => exact hkept (by simp [hq, char, bytes]) rfl rfl
  | queryFailed hq f' t ht =>
    obtain ⟨hp, hb⟩ := caught_flags engine f' t
    obtain ⟨r, rfl⟩ | ⟨r, p, rfl⟩ := ht
    · exact hkept (by simp) hp hb
    · exact hcleared hq hp hb
  | parseFailed hq f' t ht =>
    obtain ⟨hp, hb⟩ := caught_flags engine f' t
    obtain ⟨r, rfl⟩ := ht
    exact hkept (by simp) hp hb
  | bindFailed hq f' t ht =>
    obtain ⟨hp, hb⟩ := caught_flags engine f' t
    obtain ⟨r, rfl⟩ | ⟨r, rfl⟩ := ht
    · exact hkept (by simp) hp hb
    · exact hbound hq (hp.trans hparsed) hb
  | describeFailed hq f' => exact hkept (by simp) (caught_flags engine f' m).1 (caught_flags engine f' m).2

theorem doWrite_flags (out : Bytes) (fn : Continuation) (s : SessionInfo π τ) :
    (s.doWrite engine out fn).parsed = s.parsed ∧ (s.doWrite engine out fn).binded = s.binded := by
  rw [doWrite]
  split
  · cases fn with
    | handleExecutionResult =>
      rw [enter]
      split <;> exact ⟨rfl, rfl⟩
    | _ => exact ⟨rfl, rfl⟩
  · exact ⟨rfl, rfl⟩

theorem Ticks.flags {engine : Engine π δ τ} {raised : Option Nat} {p : π} {s t : Server π δ τ} {f : Option Fault}
    (h : Ticks engine raised p s t f) (hplan : s.session.plan = some p) (hends : ¬ Ends engine s (.tick raised)) :
    t.session.parsed = s.session.parsed ∧ t.session.binded = s.session.binded := by
  cases h with
  | failed hc q g => exact caught_flags engine g { raise raised s.session with plan := some q }
  | endFailed hc => exact caught_flags engine _ _
  | flushed hc => exact doWrite_flags engine _ _ (raise raised s.session)
  | @ended _ _ hc q => exact doWrite_flags engine _ _ { raise raised s.session with plan := some q }
  | done hc hend hr => exact absurd ⟨_, ⟨raised, rfl⟩, hc, hr, p, _, _, hplan, hend⟩ hends
  | _ => exact ⟨rfl, rfl⟩

theorem flags_step (hinfo : ∀ q, (engine.getInfoString q).length + 22 ≤ blockSize) {s : Server π δ τ}
    (hs : s.session.control.Ordinary) (e : Event δ) : Flags engine s e (s.step engine e).session := by
  by_cases hends : Ends engine s e
  · obtain ⟨q, r, db, out, -, hnext⟩ := step_ends engine hinfo hends
    have hreceived : s.received e = none := by
      obtain ⟨-, ⟨raised, rfl⟩, -⟩ := hends
      rfl
    rw [hnext]
    constructor <;> simp [Accepts, Receives, hreceived, hends]
  have hsame : s.step engine e = s → s.received e = none → Flags engine s e (s.step engine e).session :=
    fun hstep hreceived => flags_of_eq engine hreceived hends (by rw [hstep]) (by rw [hstep])
  cases e with
  | cancel | commit => exact flags_of_eq engine rfl hends rfl rfl
  | tick raised =>
    by_cases hexecuting : s.session.control.Executing
    · cases hplan : s.session.plan with
      | none =>
        refine flags_of_eq engine rfl hends ?_ ?_
        · cases hc : s.session.control <;> simp_all [step, Control.Executing]
        · cases hc : s.session.control <;> simp_all [step, Control.Executing]
      | some p =>
        obtain ⟨hparsed, hbinded⟩ := (tick_ticks engine hexecuting raised p).flags hplan hends
        rw [step_tick hexecuting hplan raised]
        exact flags_of_eq engine rfl hends hparsed hbinded
    · exact hsame (step_tick_idle hexecuting raised) rfl
  | message type length block =>
    cases hc : s.session.control with
    | reading =>
      by_cases htype : type = char "X" ∨ type = 0
      · refine flags_of_eq engine (by simp [received, hc, htype]) hends ?_ ?_
        · simp only [step, hc, readMessage, if_pos htype]
          rfl
        · simp only [step, hc, readMessage, if_pos htype]
          rfl
      · have hreceived := received_reading hc htype length block
        rw [step_received hreceived]
        exact Responds.flags engine hreceived hends (not_or.mp htype).2 rfl rfl (readLen_responds engine length block _)
    | readingLength =>
      rw [hc] at hs
      exact hs.elim
    | _ => exact hsame (by simp only [step, hc]) (by simp only [received, hc])
  | readError =>
    cases hc : s.session.control with
    | reading | readingLength => exact flags_of_eq engine rfl hends (by simp only [step, hc]; rfl) (by simp only [step, hc]; rfl)
    | _ => exact hsame (by simp only [step, hc]) rfl
  | written =>
    cases hc : s.session.control with
    | writing out fn =>
      obtain ⟨hparsed, hbinded⟩ := doWrite_flags engine [] fn s.session
      rw [doWrite, if_pos rfl] at hparsed hbinded
      exact flags_of_eq engine rfl hends (by simp only [step, hc]; exact hparsed) (by simp only [step, hc]; exact hbinded)
    | _ => exact hsame (by simp only [step, hc]) rfl
  | writeError =>
    cases hc : s.session.control with
    | writing out fn => exact flags_of_eq engine rfl hends (by simp only [step, hc]; rfl) (by simp only [step, hc]; rfl)
    | _ => exact hsame (by simp only [step, hc]) rfl

structure Remembers (s : Server π δ τ) (es : List (Event δ)) (p b : Bool) : Prop where
  parsed : p = true → Since (step engine) (Accepts engine (char "P")) (Ends engine) s es
  parses : Since (step engine) (Accepts engine (char "P")) (fun s e => Ends engine s e ∨ Receives [char "Q"] s e) s es →
    p = true
  binded : b = true →
    Since (step engine) (Receives [char "B"]) (fun s e => Ends engine s e ∨ Accepts engine (char "P") s e) s es
  binds : Since (step engine) (Accepts engine (char "B"))
    (fun s e => Ends engine s e ∨ Accepts engine (char "P") s e ∨ Receives [char "Q"] s e) s es → b = true

theorem remembers_nil (s : Server π δ τ) : Remembers engine s [] false false :=
  ⟨fun h => by simp at h, fun h => absurd h not_since_nil, fun h => by simp at h, fun h => absurd h not_since_nil⟩

theorem Remembers.step {engine : Engine π δ τ} {s : Server π δ τ} {es : List (Event δ)} {e : Event δ}
    (h : Remembers engine s es (run engine s es).session.parsed (run engine s es).session.binded)
    (hflags : Flags engine (run engine s es) e ((run engine s es).step engine e).session) :
    Remembers engine s (es ++ [e]) (run engine s (es ++ [e])).session.parsed (run engine s (es ++ [e])).session.binded := by
  rw [run_append]
  refine ⟨fun hp => since_append.mpr ?_, fun hs => hflags.parses ?_, fun hb => since_append.mpr ?_, fun hs => hflags.binds ?_⟩
  · exact (hflags.parsed hp).imp_right fun h' => ⟨h.parsed h'.1, h'.2⟩
  · exact (since_append.mp hs).imp_right fun h' => ⟨h.parses h'.1, h'.2⟩
  · exact (hflags.binded hb).imp_right fun h' => ⟨h.binded h'.1, h'.2⟩
  · exact (since_append.mp hs).imp_right fun h' => ⟨h.binds h'.1, h'.2⟩

/-- How the replies of a run account for its requests. -/
structure Answers (s : Server π δ τ) (es : List (Event δ)) : Prop where
  ready : (run engine s es).session.control.Open →
    (allReplies engine s es).count (char "Z") + (run engine s es).session.pending = allRequests engine s es
  deferred : AtEach (fun before e => char "1" ∈ replies engine (run engine s before) e ∨
    char "2" ∈ replies engine (run engine s before) e → Ends engine (run engine s before) e) es
  completion : AtEach (fun before e => Ends engine (run engine s before) e →
    ∃ parsed binded, Remembers engine s before parsed binded ∧
      replies engine (run engine s before) e = completion parsed binded ((run engine s before).session.qtype = char "Q")) es

/-- A connection that has been closed is not opened again. -/
theorem open_of_step {s : Server π δ τ} {e : Event δ} (h : (s.step engine e).session.control.Open) : s.session.control.Open := by
  constructor
  · intro hc
    exact h.1 (step_closed hc e)
  · intro hc
    refine h.2 ?_
    cases e <;> simp [step, hc]

theorem answers (hinfo : ∀ q, (engine.getInfoString q).length + 22 ≤ blockSize) {s : Server π δ τ}
    (hc : s.session.control = .reading) (hparsed : s.session.parsed = false) (hbinded : s.session.binded = false)
    {es : List (Event δ)} (hshort : AtEach (fun before e => ∀ x, (run engine s before).fault engine e = some (.thrown x) → x.Short) es) :
    Answers engine s es ∧ (run engine s es).session.control.Ordinary ∧
      Remembers engine s es (run engine s es).session.parsed (run engine s es).session.binded := by
  induction es using List.reverseRecOn with
  | nil =>
    refine ⟨⟨fun _ => ?_, atEach_nil, atEach_nil⟩, ?_, ?_⟩
    · simp [allReplies, allRequests, run, pending, hc, Control.serving]
    · rw [run, List.foldl_nil, hc]
      trivial
    · rw [run, List.foldl_nil, hparsed, hbinded]
      exact remembers_nil engine s
  | append_singleton es e ih =>
    obtain ⟨hshort, he⟩ := atEach_append.mp hshort
    obtain ⟨hanswers, hordinary, hremembers⟩ := ih hshort
    have haccounts := accounts_step engine hinfo hordinary he
    refine ⟨⟨fun hopen => ?_, atEach_append.mpr ⟨hanswers.deferred, haccounts.deferred⟩,
      atEach_append.mpr ⟨hanswers.completion, fun hends => ⟨_, _, hremembers, haccounts.completion hends⟩⟩⟩, ?_, ?_⟩
    · rw [run_append] at hopen ⊢
      have hbefore : (run engine s es).session.control.Open := open_of_step engine hopen
      have hready := hanswers.ready hbefore
      have hstep := haccounts.ready hopen
      rw [allReplies_append, allRequests_append, List.count_append]
      omega
    · rw [run_append]
      exact haccounts.ordinary
    · exact hremembers.step (flags_step engine hinfo hordinary e)

/-- Every Sync and every Query ends in one ReadyForQuery, and the acknowledgements wait for the end of an execution. -/
theorem answers_of_reading (hinfo : ∀ q, (engine.getInfoString q).length + 22 ≤ blockSize) {s : Server π δ τ}
    (hc : s.session.control = .reading) (hparsed : s.session.parsed = false) (hbinded : s.session.binded = false)
    {es : List (Event δ)} (hshort : AtEach (fun before e => ∀ x, (run engine s before).fault engine e = some (.thrown x) → x.Short) es) :
    Answers engine s es :=
  (answers engine hinfo hc hparsed hbinded hshort).1

def allAccepted (type : UInt8) : Server π δ τ → List (Event δ) → Nat
  | _, [] => 0
  | s, e :: es => (if Accepts engine type s e then 1 else 0) + allAccepted type (s.step engine e) es

/-- At every ReadyForQuery there have been as many acknowledgements as there were requests. -/
def Acknowledged (request reply : UInt8) (s : Server π δ τ) : List (Event δ) → Prop :=
  AtEach fun before e => char "Z" ∈ replies engine (run engine s before) e →
    (allReplies engine s (before ++ [e])).count reply = allAccepted engine request s (before ++ [e])

end Server

def parseSync : List (Event Unit) :=
  [.message (char "P") 13 (0 :: bytes "BEGIN" ++ [0, 0, 0]), .message (char "S") 4 []]

def startedSession : Server Unit Unit Unit := Server.run ignoringEngine newServer startupEvents

theorem answers_of_reading_parseSync : Server.Answers ignoringEngine startedSession parseSync := by
  refine Server.answers_of_reading ignoringEngine (fun q => ?_) (by decide +kernel) (by decide +kernel) (by decide +kernel) ?_
  · have hlen : (bytes "SELECT 0").length + 22 ≤ blockSize := by decide
    exact hlen
  · have hfault : ∀ {s : Server Unit Unit Unit} {e : Event Unit}, s.fault ignoringEngine e = none →
        ∀ x, s.fault ignoringEngine e = some (.thrown x) → x.Short := by
      intro s e hnone x hx
      rw [hnone] at hx
      cases hx
    rw [parseSync]
    simp only [atEach_cons]
    exact ⟨hfault (by decide +kernel), hfault (by decide +kernel), atEach_nil⟩

/-- The Sync is answered, and the Parse is not acknowledged. -/
theorem parseSync_not_acknowledged :
    Server.allReplies ignoringEngine startedSession parseSync = [char "Z"] ∧
      ¬ Server.Acknowledged ignoringEngine (char "P") (char "1") startedSession parseSync := by
  refine ⟨by decide +kernel, fun h => ?_⟩
  have hcount := h (parseSync.take 1) (.message (char "S") 4 []) [] rfl (by decide +kernel)
  exact absurd hcount (by decide +kernel)

end LevelPgServer
