import LevelPgServer.Lib.ExceptRules
import LevelPgServer.Server.ParseBuffer
import LevelPgServer.Server.WriteStatement

namespace LevelPgServer.SessionInfo

open PostgresProtocol StateRules

variable {π δ τ α : Type}

def Reparsed (s s' : SessionInfo π τ) : Prop := ∃ r, s' = { s with result := r }

theorem onResult_spec (f : EStateM Fault (ParseResult τ) α) (s : SessionInfo π τ) :
    Triple s.Reparsed (onResult f) (fun _ => s.Reparsed) (fun _ => s.Reparsed) := by
  rintro _ ⟨r, rfl⟩
  cases r with
  | none => exact ⟨none, rfl⟩
  | some r =>
    simp only [onResult]
    cases f r with
    | ok a r' => exact ⟨some r', rfl⟩
    | error e r' => exact ⟨some r', rfl⟩

theorem onResult_get_spec (s : SessionInfo π τ) :
    Triple s.Reparsed (onResult get) (fun r s' => s.Reparsed s' ∧ s'.result = some r) (fun _ => s.Reparsed) := by
  rintro _ ⟨r, rfl⟩
  cases r with
  | none => exact ⟨none, rfl⟩
  | some r => exact ⟨⟨some r, rfl⟩, rfl⟩

theorem liftFallible_spec (x : Fallible α) (P : SessionInfo π τ → Prop) :
    Triple P (liftFallible x) (fun a s' => P s' ∧ x = .ok a) (fun _ => P) := by
  intro s hs
  cases x with
  | ok a => exact ⟨hs, rfl⟩
  | error f => exact hs

variable (engine : Engine π δ τ) (s : SessionInfo π τ)

theorem parse_spec (sql : Bytes) : Triple s.Reparsed (parse engine sql) (fun _ => s.Reparsed) (fun _ => s.Reparsed) := by
  refine (onResult_spec _ s).bind fun _ => ?_
  split
  · exact Triple.of_pure () fun _ h => h
  · exact onResult_spec _ s

/-- The session with a plan, and perhaps another parse result. -/
def Planned (s s' : SessionInfo π τ) : Prop := ∃ r p, s' = { s with result := r, plan := some p }

theorem resolve_spec : Triple s.Reparsed (resolve engine) (fun _ => s.Planned) (fun _ => s.Reparsed) := by
  refine (onResult_get_spec s).bind fun r => ?_
  cases r.tree with
  | none =>
    refine Triple.of_modify _ ?_
    rintro _ ⟨⟨r', rfl⟩, -⟩
    exact ⟨r', _, rfl⟩
  | some tree =>
    refine ((liftFallible_spec (engine.buildPlan tree) _).bind fun p => Triple.of_modify (Q := fun _ => s.Planned) _ ?_).conseq
      (fun _ h => h.1) (fun _ _ h => h) fun _ _ h => h
    rintro _ ⟨⟨r', rfl⟩, -⟩
    exact ⟨r', p, rfl⟩

theorem handleParse_spec (block : Bytes) (len : Nat) : Triple (· = s) (handleParse engine block len)
    (fun _ s' => ∃ r, s' = { s with result := r, parsed := true, binded := false, control := .reading })
    (fun _ => s.Reparsed) := by
  refine ((liftFallible_spec _ s.Reparsed).bind fun a => ?_).conseq (fun s' h => ⟨s.result, h⟩) (fun _ _ h => h) fun _ _ h => h
  refine ((parse_spec engine s a.1).bind fun _ => (onResult_get_spec s).bind fun r => ?_).conseq (fun _ h => h.1)
    (fun _ _ h => h) fun _ _ h => h
  have hrest : Triple (fun s' => s.Reparsed s' ∧ s'.result = some r) ((do
      modify fun s => { s with parsed := true, binded := false }
      modify (enter engine .readMessageType)) : Handler π τ Unit)
      (fun _ s' => ∃ r, s' = { s with result := r, parsed := true, binded := false, control := .reading })
      (fun _ => s.Reparsed) := by
    refine Triple.bind (Q := fun _ s' => ∃ r, s' = { s with result := r, parsed := true, binded := false })
      (Triple.of_modify _ ?_) fun _ => Triple.of_modify _ ?_
    · rintro _ ⟨⟨r', rfl⟩, -⟩
      exact ⟨r', rfl⟩
    · rintro _ ⟨r', rfl⟩
      exact ⟨r', rfl⟩
  dsimp only
  split
  · exact Triple.bind (Q := fun _ s' => s.Reparsed s' ∧ s'.result = some r) (Triple.of_throw _ fun _ h => h.1) fun _ => hrest
  · exact hrest

theorem handleBind_spec (block : Bytes) (len : Nat) : Triple (· = s) (handleBind engine block len)
    (fun _ s' => ∃ r p, s' = { s with result := r, binded := true, plan := some p, control := .reading })
    (fun _ s' => s.Reparsed s' ∨ ({ s with binded := true } : SessionInfo π τ).Reparsed s') := by
  refine (Triple.bind (Q := fun _ => s.Reparsed) (R := fun _ s' => s.Reparsed s' ∨ ({ s with binded := true } : SessionInfo π τ).Reparsed s')
    ((onResult_spec _ s).conseq (fun _ h => h) (fun _ _ h => h) fun _ _ h => .inl h) fun _ => ?_).conseq
      (fun s' h => ⟨s.result, h⟩) (fun _ _ h => h) fun _ _ h => h
  refine Triple.bind ((onResult_get_spec s).conseq (fun _ h => h) (fun _ _ h => h.1) fun _ _ h => .inl h) fun r => ?_
  refine Triple.bind ((liftFallible_spec _ s.Reparsed).conseq (fun _ h => h) (fun _ _ h => h.1) fun _ _ h => .inl h) fun _ => ?_
  refine Triple.bind ((onResult_spec _ s).conseq (fun _ h => h) (fun _ _ h => h) fun _ _ h => .inl h) fun _ => ?_
  refine Triple.bind (Q := fun _ => ({ s with binded := true } : SessionInfo π τ).Reparsed) (Triple.of_modify _ ?_) fun _ => ?_
  · rintro _ ⟨r', rfl⟩
    exact ⟨r', rfl⟩
  refine Triple.bind ((resolve_spec engine { s with binded := true }).conseq (fun _ h => h) (fun _ _ h => h)
    fun _ _ h => .inr h) fun _ => Triple.of_modify _ ?_
  rintro _ ⟨r', p, rfl⟩
  exact ⟨r', p, rfl⟩

theorem describePlan_spec (p : π) (columnNum : Nat) (P : SessionInfo π τ → Prop) :
    Triple P (describePlan engine p columnNum)
      (fun out s' => P s' ∧ ∃ columns, buildColumnDescription blockSize columns = .ok out) (fun _ => P) := by
  refine (liftFallible_spec _ P).conseq (fun _ h => h) ?_ fun _ _ h => h
  rintro out s' ⟨hp, hout⟩
  obtain ⟨columns, -, hout⟩ := ExceptRules.bind_eq_ok.mp hout
  exact ⟨hp, columns, hout⟩

theorem doWrite_eq (out : Bytes) (fn : Continuation) (h : out = [] → fn ≠ .handleExecutionResult) :
    s.doWrite engine out fn = { s with control := (s.doWrite engine out fn).control } := by
  rw [doWrite]
  split
  · next hout =>
    cases fn with
    | handleExecutionResult => exact absurd rfl (h hout)
    | _ => rfl
  · rfl

/-- What a Query leads to when its plan can be described: the description is written, if there
are columns, and the execution begins. -/
def QueryControl (c : Control) : Prop :=
  c = .beginning ∨ ∃ columns out, buildColumnDescription blockSize columns = .ok out ∧ c = .writing out .handleExecutionBegin

/-- A Query that fails leaves the flags as they are, or has cleared them. -/
theorem handleQuery_spec (block : Bytes) (len : Nat) : Triple (· = s) (handleQuery engine block len)
    (fun _ s' => ∃ r p c, s' = { s with result := r, plan := some p, parsed := false, binded := false, control := c } ∧
      QueryControl c)
    (fun _ s' => s.Reparsed s' ∨ ({ s with parsed := false, binded := false } : SessionInfo π τ).Planned s') := by
  refine (Triple.bind (Q := fun _ => s.Reparsed) (R := fun _ s' => s.Reparsed s' ∨
    ({ s with parsed := false, binded := false } : SessionInfo π τ).Planned s')
    ((liftFallible_spec _ s.Reparsed).conseq (fun _ h => h) (fun _ _ h => h.1) fun _ _ h => .inl h) fun sql => ?_).conseq
      (fun s' h => ⟨s.result, h⟩) (fun _ _ h => h) fun _ _ h => h
  refine Triple.bind ((parse_spec engine s sql).conseq (fun _ h => h) (fun _ _ h => h) fun _ _ h => .inl h) fun _ => ?_
  refine Triple.bind ((resolve_spec engine s).conseq (fun _ h => h) (fun _ _ h => h) fun _ _ h => .inl h) fun _ => ?_
  refine Triple.bind (Q := fun _ => ({ s with parsed := false, binded := false } : SessionInfo π τ).Planned)
    (Triple.of_modify _ ?_) fun _ => ?_
  · rintro _ ⟨r, p, rfl⟩
    exact ⟨r, p, rfl⟩
  refine Triple.bind (Q := fun t s' => t = s' ∧ ({ s with parsed := false, binded := false } : SessionInfo π τ).Planned s')
    (Triple.of_get fun _ h => ⟨rfl, h⟩) fun t => ?_
  cases hp : t.plan with
  | none =>
    refine Triple.of_throw _ ?_
    rintro _ ⟨rfl, r, p, rfl⟩
    cases hp
  | some p =>
    dsimp only
    split
    · refine Triple.bind ((describePlan_spec engine p (engine.getResultColumns p) _).conseq (fun _ h => h) (fun _ _ h => h)
        fun _ _ h => .inr h.2) fun out => Triple.of_modify _ ?_
      rintro _ ⟨⟨rfl, r, p, rfl⟩, columns, hout⟩
      refine ⟨r, p, _, doWrite_eq engine _ out _ (fun _ h => by cases h), ?_⟩
      rw [doWrite]
      split
      · exact .inl rfl
      · exact .inr ⟨columns, out, hout, rfl⟩
    · refine Triple.of_modify _ ?_
      rintro _ ⟨rfl, r, p, rfl⟩
      exact ⟨r, p, .beginning, rfl, .inl rfl⟩

theorem handleDescription_spec (block : Bytes) (len : Nat) : Triple (· = s) (handleDescription engine block len)
    (fun _ s' => ∃ c, s' = { s with control := c } ∧ (c = .reading ∨ ∃ columns out,
      buildColumnDescription blockSize columns = .ok out ∧ c = .writing out .readMessageType))
    (fun _ s' => s' = s) := by
  refine Triple.bind ((liftFallible_spec _ (· = s)).conseq (fun _ h => h) (fun _ _ h => h.1) fun _ _ h => h) fun _ => ?_
  refine Triple.bind (Q := fun t s' => t = s ∧ s' = s) (Triple.of_get fun t h => ⟨h, h⟩) fun t => ?_
  cases t.plan with
  | none =>
    refine Triple.of_modify _ ?_
    rintro _ ⟨-, rfl⟩
    exact ⟨.reading, rfl, .inl rfl⟩
  | some p =>
    dsimp only
    split
    · refine Triple.of_modify _ ?_
      rintro _ ⟨-, rfl⟩
      exact ⟨.reading, rfl, .inl rfl⟩
    · refine Triple.bind ((describePlan_spec engine p (engine.getResultColumns p) _).conseq (fun _ h => h) (fun _ _ h => h)
        fun _ _ h => h.2) fun out => Triple.of_modify _ ?_
      rintro _ ⟨⟨-, rfl⟩, columns, hout⟩
      refine ⟨_, doWrite_eq engine _ out _ (fun _ h => by cases h), ?_⟩
      rw [doWrite]
      split
      · exact .inl rfl
      · exact .inr ⟨columns, out, hout, rfl⟩

theorem handleStartup_spec (block : Bytes) (len : Nat) : Triple (· = s) (handleStartup engine block len)
    (fun _ s' => ∃ out fn, s' = s.doWrite engine out fn ∧ (fn = .readLen ∨ fn = .readMessageType)) (fun _ s' => s' = s) := by
  refine Triple.bind ((liftFallible_spec _ (· = s)).conseq (fun _ h => h) (fun _ _ h => h.1) fun _ _ h => h) fun action => ?_
  cases action with
  | ssl =>
    refine Triple.of_modify _ ?_
    rintro _ rfl
    exact ⟨_, _, rfl, .inl rfl⟩
  | normal =>
    refine Triple.of_modify _ ?_
    rintro _ rfl
    exact ⟨_, _, rfl, .inr rfl⟩

def fault (length : Nat) (block : Bytes) : Option Fault :=
  if length < 4 ∨ blockSize < length - 4 then none
  else
    match handler engine s.qtype block (length - 4) with
    | none => none
    | some h =>
      match h s with
      | .ok _ _ => none
      | .error f _ => some f

variable {s}

/-- What the handling of a message leads to: the session behind it, what was thrown and whether
the handler has returned. -/
inductive Responds (s : SessionInfo π τ) : SessionInfo π τ → Option Fault → Bool → Prop
  | closed : Responds s s.close none false
  | startup (hq : s.qtype = 0) (out : Bytes) (fn : Continuation) (hfn : fn = .readLen ∨ fn = .readMessageType) :
      Responds s (s.doWrite engine out fn) none true
  | sync (hq : s.qtype = char "S") :
      Responds s { s with control := .writing (buildSync blockSize) .readMessageType } none true
  | query (hq : s.qtype = char "Q") (r : Option (ParseResult τ)) (p : π) (c : Control) (hc : QueryControl c) :
      Responds s { s with result := r, plan := some p, parsed := false, binded := false, control := c } none true
  | parse (hq : s.qtype = char "P") (r : Option (ParseResult τ)) :
      Responds s { s with result := r, parsed := true, binded := false, control := .reading } none true
  | bind (hq : s.qtype = char "B") (r : Option (ParseResult τ)) (p : π) :
      Responds s { s with result := r, binded := true, plan := some p, control := .reading } none true
  | describe (hq : s.qtype = char "D") (c : Control) (hc : c = .reading ∨ ∃ columns out,
        buildColumnDescription blockSize columns = .ok out ∧ c = .writing out .readMessageType) :
      Responds s { s with control := c } none true
  | execute (hq : s.qtype = char "E") : Responds s { s with control := .beginning } none true
  | startupFailed (hq : s.qtype = 0) (f : Fault) : Responds s (s.caught engine f) (some f) false
  | queryFailed (hq : s.qtype = char "Q") (f : Fault) (t : SessionInfo π τ)
      (ht : s.Reparsed t ∨ ({ s with parsed := false, binded := false } : SessionInfo π τ).Planned t) :
      Responds s (t.caught engine f) (some f) false
  | parseFailed (hq : s.qtype = char "P") (f : Fault) (t : SessionInfo π τ) (ht : s.Reparsed t) :
      Responds s (t.caught engine f) (some f) false
  | bindFailed (hq : s.qtype = char "B") (f : Fault) (t : SessionInfo π τ)
      (ht : s.Reparsed t ∨ ({ s with binded := true } : SessionInfo π τ).Reparsed t) :
      Responds s (t.caught engine f) (some f) false
  | describeFailed (hq : s.qtype = char "D") (f : Fault) : Responds s (s.caught engine f) (some f) false

theorem buildSync_ne_nil : buildSync blockSize ≠ [] := by decide

theorem readLen_responds (length : Nat) (block : Bytes) (s : SessionInfo π τ) :
    Responds engine s (s.readLen engine length block) (s.fault engine length block) (s.succeeds engine length block) := by
  rw [readLen, fault, succeeds]
  split
  · exact .closed
  have hrun : ∀ {m : Handler π τ Unit} {Q : SessionInfo π τ → Prop} {R : Fault → SessionInfo π τ → Prop},
      Triple (· = s) m (fun _ => Q) R → handler engine s.qtype block (length - 4) = some m →
        (∀ s', Q s' → Responds engine s s' none true) →
          (∀ f t, R f t → Responds engine s (t.caught engine f) (some f) false) →
            Responds engine s (s.readData engine block (length - 4))
              (match handler engine s.qtype block (length - 4) with
              | none => none
              | some h =>
                match h s with
                | .ok _ _ => none
                | .error f _ => some f)
              (match handler engine s.qtype block (length - 4) with
              | none => false
              | some h =>
                match h s with
                | .ok _ _ => true
                | .error _ _ => false) := by
    intro m Q R hm hh hok herror
    rw [readData, hh]
    dsimp only
    have hres := hm s rfl
    cases h : m s with
    | ok a s' =>
      rw [h] at hres
      exact hok s' hres
    | error f t =>
      rw [h] at hres
      exact herror f t hres
  by_cases h0 : s.qtype = 0
  · refine hrun (handleStartup_spec engine s block (length - 4)) (by rw [handler, if_pos h0]) ?_ ?_
    · rintro _ ⟨out, fn, rfl, hfn⟩
      exact .startup h0 out fn hfn
    · rintro f _ rfl
      exact .startupFailed h0 f
  by_cases hS : s.qtype = char "S"
  · refine hrun (Q := fun s' => s' = s.doWrite engine (buildSync blockSize) .readMessageType) (R := fun _ _ => False)
      (Triple.of_modify _ fun s' h => by rw [h]) (by rw [handler, if_neg h0, if_pos hS]; rfl) ?_ fun _ _ => False.elim
    rintro _ rfl
    rw [doWrite, if_neg buildSync_ne_nil]
    exact .sync hS
  by_cases hQ : s.qtype = char "Q"
  · refine hrun (handleQuery_spec engine s block (length - 4)) (by rw [handler, if_neg h0, if_neg hS, if_pos hQ]) ?_ ?_
    · rintro _ ⟨r, p, c, rfl, hc⟩
      exact .query hQ r p c hc
    · exact fun f t ht => .queryFailed hQ f t ht
  by_cases hP : s.qtype = char "P"
  · refine hrun (handleParse_spec engine s block (length - 4)) (by rw [handler, if_neg h0, if_neg hS, if_neg hQ, if_pos hP]) ?_ ?_
    · rintro _ ⟨r, rfl⟩
      exact .parse hP r
    · exact fun f t ht => .parseFailed hP f t ht
  by_cases hB : s.qtype = char "B"
  · refine hrun (handleBind_spec engine s block (length - 4))
      (by rw [handler, if_neg h0, if_neg hS, if_neg hQ, if_neg hP, if_pos hB]) ?_ ?_
    · rintro _ ⟨r, p, rfl⟩
      exact .bind hB r p
    · exact fun f t ht => .bindFailed hB f t ht
  by_cases hD : s.qtype = char "D"
  · refine hrun (handleDescription_spec engine s block (length - 4))
      (by rw [handler, if_neg h0, if_neg hS, if_neg hQ, if_neg hP, if_neg hB, if_pos hD]) ?_ ?_
    · rintro _ ⟨c, rfl, hc⟩
      exact .describe hD c hc
    · rintro f _ rfl
      exact .describeFailed hD f
  by_cases hE : s.qtype = char "E"
  · refine hrun (Q := fun s' => s' = { s with control := .beginning }) (R := fun _ _ => False)
      (Triple.of_modify _ fun s' h => by rw [h])
      (by rw [handler, if_neg h0, if_neg hS, if_neg hQ, if_neg hP, if_neg hB, if_neg hD, if_pos hE]; rfl) ?_ fun _ _ => False.elim
    rintro _ rfl
    exact .execute hE
  · have hnone : handler engine s.qtype block (length - 4) = none := by
      rw [handler, if_neg h0, if_neg hS, if_neg hQ, if_neg hP, if_neg hB, if_neg hD, if_neg hE]
    rw [readData, hnone]
    exact .closed

end LevelPgServer.SessionInfo

namespace LevelPgServer.Server

open PostgresProtocol SessionInfo

variable {π δ τ : Type} (engine : Engine π δ τ)

def tickFault (raised : Option Nat) (p : π) (s : Server π δ τ) : Option Fault :=
  match s.session.control with
  | .beginning =>
    match engine.begin (seen s.session raised) s.db p with
    | .ok _ _ => none
    | .error f _ => some f
  | .firstNext | .looping _ _ =>
    match engine.next (seen s.session raised) p with
    | .ok _ _ => none
    | .error f _ => some f
  | .building columnNum w =>
    if columnNum = 0 then none
    else
      match buildData engine.conv engine.fmt (currentRow engine p columnNum) w with
      | .ok _ => none
      | .error f => some f
  | .finishing =>
    match engine.end (p, s.db) with
    | .ok _ _ => none
    | .error f _ => some f
  | _ => none

/-- The exception that is caught when the event is handled. -/
def fault (s : Server π δ τ) (e : Event δ) : Option Fault :=
  match e, s.session.control with
  | .message type length block, .reading =>
    if type = char "X" ∨ type = 0 then none else ({ s.session with qtype := type } : SessionInfo π τ).fault engine length block
  | .message _ length block, .readingLength => s.session.fault engine length block
  | .tick raised, _ => s.session.plan.bind fun p => s.tickFault engine raised p
  | _, _ => none

variable {engine}

def raise (raised : Option Nat) (s : SessionInfo π τ) : SessionInfo π τ :=
  { s with terminate := s.terminate || raised.isSome }

/-- What one call on the plan `p` leads to, and what it throws. -/
inductive Ticks (engine : Engine π δ τ) (raised : Option Nat) (p : π) (s : Server π δ τ) : Server π δ τ → Option Fault → Prop
  | begun (hc : s.session.control = .beginning) {q : π} (h : engine.begin (seen s.session raised) s.db p = .ok () q) :
      Ticks engine raised p s ⟨{ raise raised s.session with plan := some q, control := .firstNext }, s.db⟩ none
  | row (hc : s.session.control = .firstNext) {q : π} (h : engine.next (seen s.session raised) p = .ok true q) :
      Ticks engine raised p s ⟨{ raise raised s.session with
        plan := some q
        control := .building (engine.getResultColumns q) { size := blockSize } }, s.db⟩ none
  | noRow (hc : s.session.control = .firstNext) {q : π} (h : engine.next (seen s.session raised) p = .ok false q) :
      Ticks engine raised p s ⟨{ raise raised s.session with plan := some q, control := .finishing }, s.db⟩ none
  | skipped {w : PgDataWriter} (hc : s.session.control = .building 0 w) :
      Ticks engine raised p s ⟨{ raise raised s.session with plan := some p, control := .looping 0 w }, s.db⟩ none
  | built {n : Nat} {w w' : PgDataWriter} (hc : s.session.control = .building n w) (hn : n ≠ 0)
      (h : buildData engine.conv engine.fmt (currentRow engine p n) w = .ok w') (hw : w'.full = false) :
      Ticks engine raised p s ⟨{ raise raised s.session with plan := some p, control := .looping n w' }, s.db⟩ none
  | flushed {n : Nat} {w w' : PgDataWriter} (hc : s.session.control = .building n w) (hn : n ≠ 0)
      (h : buildData engine.conv engine.fmt (currentRow engine p n) w = .ok w') (hw : w'.full = true) :
      Ticks engine raised p s ⟨SessionInfo.doWrite engine w'.prepared .handleExecutionResult (raise raised s.session),
        s.db⟩ none
  | again {n : Nat} {w : PgDataWriter} (hc : s.session.control = .looping n w) {q : π}
      (h : engine.next (seen s.session raised) p = .ok true q) :
      Ticks engine raised p s ⟨{ raise raised s.session with plan := some q, control := .building n w }, s.db⟩ none
  | ended {n : Nat} {w : PgDataWriter} (hc : s.session.control = .looping n w) {q : π}
      (h : engine.next (seen s.session raised) p = .ok false q) :
      Ticks engine raised p s ⟨SessionInfo.doWrite engine w.prepared .handleExecutionDone
        { raise raised s.session with plan := some q }, s.db⟩ none
  | failed (hc : s.session.control ≠ .finishing) (q : π) (f : Fault) :
      Ticks engine raised p s ⟨SessionInfo.caught engine f { raise raised s.session with plan := some q }, s.db⟩ (some f)
  | endFailed (hc : s.session.control = .finishing) {q : π} {db : δ} {f : Fault}
      (h : engine.end (p, s.db) = .error f (q, db)) :
      Ticks engine raised p s ⟨SessionInfo.caught engine f { raise raised s.session with plan := some q }, db⟩ (some f)
  | lost (hc : s.session.control = .finishing) {q : π} {db : δ} (h : engine.end (p, s.db) = .ok () (q, db))
      (hr : s.session.result = none) :
      Ticks engine raised p s ⟨{ raise raised s.session with
        plan := none
        result := none
        control := .undefined }, db⟩ none
  | done (hc : s.session.control = .finishing) {q : π} {db : δ} (h : engine.end (p, s.db) = .ok () (q, db))
      {r : ParseResult τ} (hr : s.session.result = some r) :
      Ticks engine raised p s ⟨SessionInfo.doWrite engine (buildExecutionDone blockSize s.session.parsed s.session.binded
          (engine.getInfoString q) (s.session.qtype = char "Q")) .readMessageType
        { raise raised s.session with
          plan := none
          result := some r.restore
          parsed := false
          binded := false }, db⟩ none

theorem tick_ticks (engine : Engine π δ τ) {s : Server π δ τ} (hc : s.session.control.Executing) (raised : Option Nat) (p : π) :
    Ticks engine raised p s (s.tick engine raised p) (s.tickFault engine raised p) := by
  rw [tick, tickFault]
  cases h : s.session.control with
  | beginning =>
    dsimp only
    cases hb : engine.begin (seen s.session raised) s.db p with
    | ok a q => exact .begun h hb
    | error f q => exact .failed (by rw [h]; simp) q f
  | firstNext =>
    dsimp only
    cases hn : engine.next (seen s.session raised) p with
    | ok more q =>
      cases more with
      | true => exact .row h hn
      | false => exact .noRow h hn
    | error f q => exact .failed (by rw [h]; simp) q f
  | building n w =>
    dsimp only
    by_cases hzero : n = 0
    · subst hzero
      rw [if_pos rfl, if_pos rfl]
      exact .skipped h
    · rw [if_neg hzero, if_neg hzero]
      cases hd : buildData engine.conv engine.fmt (currentRow engine p n) w with
      | error f => exact .failed (by rw [h]; simp) p f
      | ok w' =>
        dsimp only
        cases hw : w'.full with
        | true => exact .flushed h hzero hd hw
        | false => exact .built h hzero hd hw
  | looping n w =>
    dsimp only
    cases hn : engine.next (seen s.session raised) p with
    | ok more q =>
      cases more with
      | true => exact .again h hn
      | false => exact .ended h hn
    | error f q => exact .failed (by rw [h]; simp) q f
  | finishing =>
    dsimp only
    rw [handleExecutionDone]
    cases he : engine.end (p, s.db) with
    | error f x => exact .endFailed h he
    | ok a x =>
      dsimp only
      cases hr : s.session.result with
      | none => exact .lost h he hr
      | some r => exact .done h he hr
  | _ =>
    rw [h] at hc
    exact absurd hc id

/-- The session to which the event hands a message, with its length and the block. -/
def received (s : Server π δ τ) (e : Event δ) : Option (SessionInfo π τ × Nat × Bytes) :=
  match e, s.session.control with
  | .message type length block, .reading =>
    if type = char "X" ∨ type = 0 then none else some ({ s.session with qtype := type }, length, block)
  | .message _ length block, .readingLength => some (s.session, length, block)
  | _, _ => none

theorem step_received {engine : Engine π δ τ} {s : Server π δ τ} {x : Event δ} {t : SessionInfo π τ} {length : Nat}
    {block : Bytes} (h : s.received x = some (t, length, block)) :
    (s.step engine x).session = t.readLen engine length block := by
  cases x with
  | message type length' block' =>
    cases hc : s.session.control with
    | reading =>
      simp only [received, hc] at h
      split at h
      · cases h
      · next htype =>
        cases h
        simp only [step, hc]
        rw [SessionInfo.readMessage, if_neg htype, hc]
    | readingLength =>
      simp only [received, hc] at h
      cases h
      simp only [step, hc]
    | _ =>
      simp only [received, hc] at h
      cases h
  | _ => cases h

theorem received_reading {s : Server π δ τ} (hc : s.session.control = .reading) {type : UInt8}
    (htype : ¬ (type = char "X" ∨ type = 0)) (length : Nat) (block : Bytes) :
    s.received (.message type length block) = some ({ s.session with qtype := type }, length, block) := by
  simp [received, hc, htype]

theorem step_closed {engine : Engine π δ τ} {s : Server π δ τ} (h : s.session.control = .closed) (x : Event δ) :
    (s.step engine x).session.control = .closed := by
  cases x <;> simp [step, h]

/-- An execution ends: its `end` returns, and the parse buffer is as it was at the last Bind. -/
def Ends (engine : Engine π δ τ) (s : Server π δ τ) (x : Event δ) : Prop := ∃ r, Restores engine s x r

end LevelPgServer.Server
