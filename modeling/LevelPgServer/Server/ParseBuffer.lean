import LevelPgServer.Server.SessionReuse

namespace LevelPgServer

open PostgresProtocol StateRules

variable {π δ τ : Type}

namespace Region

theorem stop_consecutive_le {cur : Nat} {sizes : List Nat} {n : Region} (h : n ∈ consecutive cur sizes) :
    n.stop ≤ cur + sizes.sum := by
  induction sizes generalizing cur with
  | nil => cases h
  | cons size sizes ih =>
    rw [List.sum_cons]
    rcases List.mem_cons.mp h with rfl | h
    · simp only [stop]
      omega
    · have := ih h
      omega

end Region

namespace ParseResult

/-- A later Bind still finds the tree or the parameters of the statement. -/
def Reachable (r : ParseResult τ) : Prop := r.tree ≠ none ∨ r.params ≠ 0

/-- What was allocated since overlaps nothing of a reachable statement, and what will be
allocated next will not either. -/
structure Safe (r : ParseResult τ) : Prop where
  current : r.Reachable → ∀ n ∈ r.statement, n.stop ≤ r.current
  strings : r.Reachable → ∀ s ∈ r.strings, ∀ n ∈ r.statement, s.Disjoint n

/-- The mark does not lie within a reachable statement. -/
def Kept (r : ParseResult τ) : Prop := r.Reachable → ∀ n ∈ r.statement, n.stop ≤ r.mark

theorem Safe.setMark {r : ParseResult τ} (h : r.Safe) : r.setMark.Safe ∧ r.setMark.Kept :=
  ⟨⟨h.current, h.strings⟩, h.current⟩

theorem Safe.restore {r : ParseResult τ} (h : r.Safe) (hk : r.Kept) : r.restore.Safe := ⟨hk, h.strings⟩

theorem kept_of_restore {r : ParseResult τ} (h : r.restore.Safe) : r.Kept := h.current

theorem alloc_triple (K : Prop) (size : Nat) : Triple (fun r : ParseResult τ => r.Safe ∧ (K → r.Kept)) (alloc size)
    (fun s r => (r.Safe ∧ (K → r.Kept)) ∧ (r.Reachable → ∀ n ∈ r.statement, s.Disjoint n)) (fun _ r => r.Safe ∧ (K → r.Kept)) := by
  rintro r ⟨h, hk⟩
  rw [alloc]
  split
  · next hfull =>
    split at hfull
    · cases hfull
    · cases hfull
      refine ⟨⟨⟨fun hr n hn => ?_, h.strings⟩, hk⟩, fun hr n hn => .inr (h.current hr n hn)⟩
      exact le_trans (h.current hr n hn) (Nat.le_add_right _ _)
  · next hfull =>
    split at hfull
    · cases hfull
      exact ⟨h, hk⟩
    · cases hfull

theorem reachable_map {r : ParseResult τ} (f : τ → τ) :
    ({ r with tree := r.tree.map f } : ParseResult τ).Reachable ↔ r.Reachable := by
  simp [Reachable, Option.map_eq_none_iff]

theorem bindAll_triple (engine : Engine π δ τ) (K : Prop) (i : Nat) (params : List (Bool × Bytes)) :
    Triple (fun r : ParseResult τ => r.Safe ∧ (K → r.Kept)) (bindAll engine i params) (fun _ r => r.Safe ∧ (K → r.Kept))
      (fun _ r => r.Safe ∧ (K → r.Kept)) := by
  induction params generalizing i with
  | nil => exact Triple.of_pure () fun r h => h
  | cons p params ih =>
    obtain ⟨binary, value⟩ := p
    refine (Triple.of_modify _ fun r h => ?_).bind fun _ => (alloc_triple K value.length).bind fun s =>
      (Triple.of_modify _ fun r h => ?_).bind fun _ => ih (i + 1)
    · exact ⟨⟨fun hr => h.1.current ((reachable_map _).mp hr), fun hr => h.1.strings ((reachable_map _).mp hr)⟩,
        fun k hr => h.2 k ((reachable_map _).mp hr)⟩
    · obtain ⟨⟨hs, hk⟩, hd⟩ := h
      refine ⟨⟨fun hr => hs.current ((reachable_map _).mp hr), fun hr s' hs' n hn => ?_⟩,
        fun k hr => hk k ((reachable_map _).mp hr)⟩
      rcases List.mem_append.mp hs' with hold | hnew
      · exact hs.strings ((reachable_map _).mp hr) s' hold n hn
      · rw [List.mem_singleton.mp hnew]
        exact hd ((reachable_map _).mp hr) n hn

theorem parse_triple (engine : Engine π δ τ) (sql : Bytes) :
    Triple (fun _ : ParseResult τ => True) (parse engine sql) (fun _ r => r.Safe) (fun _ r => r.Safe) := by
  refine (Triple.of_modify (Q := fun _ r => r.tree = none ∧ r.params = 0 ∧ r.strings = [] ∧ r.current = 0) _
    fun r _ => ⟨rfl, rfl, rfl, rfl⟩).bind fun _ => ?_
  refine Triple.bind (Q := fun s r => r.strings = [] ∧ s.stop ≤ r.current) ?_ fun s => ?_
  · rintro r ⟨ht, hp, hs, -⟩
    have hunreachable : ¬ r.Reachable := fun h => h.elim (fun h => h ht) fun h => h hp
    rw [alloc]
    split
    · next hfull =>
      split at hfull
      · cases hfull
      · cases hfull
        exact ⟨hs, le_rfl⟩
    · next hfull =>
      split at hfull
      · cases hfull
        exact ⟨fun hr => absurd hr hunreachable, fun hr => absurd hr hunreachable⟩
      · cases hfull
  · refine (Triple.of_modify (Q := fun _ r => r.Safe) _ fun r h => ?_).bind fun _ => ?_
    · obtain ⟨hs, hstop⟩ := h
      refine ⟨fun _ n hn => ?_, fun _ s' hs' => ?_⟩
      · rcases List.mem_cons.mp hn with rfl | hn
        · exact le_trans hstop (Nat.le_add_right _ _)
        · exact Region.stop_consecutive_le hn
      · rw [show _ = r.strings from rfl, hs] at hs'
        cases hs'
    · cases (engine.parseSql sql).error with
      | some e => exact Triple.of_throw _ fun r h => h
      | none => exact Triple.of_pure _ fun r h => h

end ParseResult

namespace SessionInfo

variable (engine : Engine π δ τ)

/-- The parse result, if there is one, satisfies `P`. -/
def OnResult (P : ParseResult τ → Prop) (s : SessionInfo π τ) : Prop := ∀ r, s.result = some r → P r

theorem OnResult.of_result {P : ParseResult τ → Prop} {s t : SessionInfo π τ} (h : OnResult P s)
    (hr : ∀ r, t.result = some r → s.result = some r) : OnResult P t := fun r hr' => h r (hr r hr')

/-- The parse result is safe, and its mark kept if `K`. -/
abbrev BufferSafe (K : Prop) : SessionInfo π τ → Prop := OnResult fun r => r.Safe ∧ (K → r.Kept)

theorem BufferSafe.weaken {K : Prop} {s : SessionInfo π τ} (h : BufferSafe K s) : BufferSafe False s :=
  fun r hr => ⟨(h r hr).1, False.elim⟩

@[simp] theorem enter_result (fn : Continuation) (s : SessionInfo π τ) : (s.enter engine fn).result = s.result := by
  cases fn with
  | handleExecutionResult =>
    rw [enter]
    split <;> rfl
  | _ => rfl

@[simp] theorem doWrite_result (out : Bytes) (fn : Continuation) (s : SessionInfo π τ) :
    (s.doWrite engine out fn).result = s.result := by
  rw [doWrite]
  split
  · exact enter_result engine fn s
  · rfl

theorem caught_result (f : Fault) (s : SessionInfo π τ) {r : ParseResult τ} (h : (s.caught engine f).result = some r) :
    s.result = some r := by
  cases f with
  | undefined => exact h
  | thrown e =>
    rw [caught] at h
    split at h
    · cases h
    · rwa [doWrite_result] at h

theorem onResult_triple {α : Type} {P Q R : ParseResult τ → Prop}
    {f : EStateM Fault (ParseResult τ) α} (hf : Triple P f (fun _ => Q) (fun _ => R)) :
    Triple (OnResult P : SessionInfo π τ → Prop) (onResult f) (fun _ => OnResult Q) (fun _ => OnResult R) := by
  intro s hs
  rw [onResult]
  cases hr : s.result with
  | none =>
    intro r hr'
    rw [hr] at hr'
    cases hr'
  | some r =>
    have hrun := hf r (hs r hr)
    dsimp only
    cases hm : f r with
    | ok a r' =>
      rw [hm] at hrun
      intro r'' hr''
      cases hr''
      exact hrun
    | error e r' =>
      rw [hm] at hrun
      intro r'' hr''
      cases hr''
      exact hrun

theorem onResult_get_triple (P Q : ParseResult τ → Prop) : Triple (OnResult P : SessionInfo π τ → Prop) (onResult get)
    (fun r s => s.result = some r ∧ P r) (fun _ => OnResult Q) := by
  intro s hs
  rw [onResult]
  cases hr : s.result with
  | none =>
    intro r hr'
    rw [hr] at hr'
    cases hr'
  | some r => exact ⟨rfl, hs r hr⟩

theorem onResult_of_eq {P : ParseResult τ → Prop} {s : SessionInfo π τ} {r : ParseResult τ} (h : s.result = some r ∧ P r) :
    OnResult P s := by
  intro r' hr'
  rw [h.1] at hr'
  cases hr'
  exact h.2

/-- A function of the session that does not look at the parse result. -/
theorem modify_triple {P : ParseResult τ → Prop} {f : SessionInfo π τ → SessionInfo π τ} (hf : ∀ s, (f s).result = s.result) :
    Triple (OnResult P) (modify f : Handler π τ Unit) (fun _ => OnResult P) (fun _ => OnResult P) :=
  Triple.of_modify f fun s h => h.of_result fun _ hr => (hf s).symm.trans hr

theorem parse_bufferSafe (sql : Bytes) : Triple (BufferSafe False : SessionInfo π τ → Prop) (parse engine sql)
    (fun _ => BufferSafe False) (fun _ => BufferSafe False) := by
  have hreset : Triple (fun r : ParseResult τ => r.Safe ∧ (False → r.Kept)) (modify fun r => { r with tree := none } :
      EStateM Fault (ParseResult τ) Unit) (fun _ r => r.Safe ∧ (False → r.Kept)) (fun _ r => r.Safe ∧ (False → r.Kept)) :=
    Triple.of_modify _ fun r h =>
      ⟨⟨fun hr => h.1.current (.inr (hr.resolve_left (by simp))), fun hr => h.1.strings (.inr (hr.resolve_left (by simp)))⟩,
        False.elim⟩
  refine (onResult_triple hreset).bind fun _ => ?_
  split
  · exact Triple.of_pure () fun s h => h
  · exact onResult_triple ((ParseResult.parse_triple engine sql).conseq (fun _ _ => trivial)
      (fun _ _ h => ⟨h, False.elim⟩) fun _ _ h => ⟨h, False.elim⟩)

variable (P : ParseResult τ → Prop)

theorem resolve_onResult : Triple (OnResult P : SessionInfo π τ → Prop) (resolve engine) (fun _ => OnResult P)
    (fun _ => OnResult P) := by
  refine (onResult_get_triple P P).bind fun r => ?_
  cases r.tree with
  | none => exact Triple.of_modify _ fun s h => (onResult_of_eq h).of_result fun _ hr => hr
  | some tree =>
    exact ((liftFallible_triple _).conseq (fun _ h => onResult_of_eq h) (fun _ _ h => h) fun _ _ h => h).bind fun p =>
      modify_triple fun _ => rfl

theorem describe_onResult (p : π) (columnNum : Nat) (fn : Continuation) :
    Triple (OnResult P : SessionInfo π τ → Prop) (do
      let out ← describePlan engine p columnNum
      modify (doWrite engine out fn)) (fun _ => OnResult P) (fun _ => OnResult P) :=
  (liftFallible_triple _).bind fun out => modify_triple (doWrite_result engine out fn)

theorem handleStartup_onResult (block : Bytes) (len : Nat) : Triple (OnResult P : SessionInfo π τ → Prop)
    (handleStartup engine block len) (fun _ => OnResult P) (fun _ => OnResult P) := by
  refine (liftFallible_triple _).bind fun action => ?_
  cases action with
  | ssl => exact modify_triple (doWrite_result engine _ _)
  | normal => exact modify_triple fun s => doWrite_result engine _ _ s

theorem handleDescription_onResult (block : Bytes) (len : Nat) :
    Triple (OnResult P : SessionInfo π τ → Prop) (handleDescription engine block len) (fun _ => OnResult P)
      (fun _ => OnResult P) := by
  refine (liftFallible_triple _).bind fun _ => (Triple.of_get (Q := fun _ => OnResult P) fun _ h => h).bind fun s => ?_
  cases s.plan with
  | none => exact modify_triple (enter_result engine _)
  | some p =>
    dsimp only
    split
    · exact modify_triple (enter_result engine _)
    · exact describe_onResult engine P p _ _

variable {P} {Q : ParseResult τ → Prop}

theorem liftFallible_eq {α : Type} {P : SessionInfo π τ → Prop} (x : Fallible α) :
    Triple P (liftFallible x : Handler π τ α) (fun a s => P s ∧ x = .ok a) (fun f s => P s ∧ x = .error f) := by
  intro s hs
  cases x with
  | error f => exact ⟨hs, rfl⟩
  | ok a => exact ⟨hs, rfl⟩

theorem handleQuery_onResult (block : Bytes) (len : Nat) (hunread : ∀ f, readQueryInfo block len = .error f → ∀ r, P r → Q r)
    (hparse : ∀ sql, readQueryInfo block len = .ok sql →
      Triple (OnResult P : SessionInfo π τ → Prop) (parse engine sql) (fun _ => OnResult Q) (fun _ => OnResult Q)) :
    Triple (OnResult P : SessionInfo π τ → Prop) (handleQuery engine block len) (fun _ => OnResult Q) (fun _ => OnResult Q) := by
  refine ((liftFallible_eq (P := OnResult P) _).conseq (fun _ h => h) (fun _ _ h => h)
    fun f s h r hr => hunread f h.2 r (h.1 r hr)).bind fun sql s h => ?_
  refine Triple.bind (hparse sql h.2) (fun _ => (resolve_onResult engine Q).bind fun _ =>
    (modify_triple (by exact fun _ => rfl)).bind fun _ =>
      (Triple.of_get (Q := fun _ => OnResult Q) fun _ h => h).bind fun s => ?_) s h.1
  cases s.plan with
  | none => exact Triple.of_throw _ fun _ h => h
  | some p =>
    dsimp only
    split
    · exact describe_onResult engine Q p _ _
    · exact modify_triple (enter_result engine _)

theorem handleParse_onResult (block : Bytes) (len : Nat) (hunread : ∀ f, readParseInfo block len = .error f → ∀ r, P r → Q r)
    (hparse : ∀ sql n, readParseInfo block len = .ok (sql, n) →
      Triple (OnResult P : SessionInfo π τ → Prop) (parse engine sql) (fun _ => OnResult Q) (fun _ => OnResult Q)) :
    Triple (OnResult P : SessionInfo π τ → Prop) (handleParse engine block len) (fun _ => OnResult Q) (fun _ => OnResult Q) := by
  refine ((liftFallible_eq (P := OnResult P) _).conseq (fun _ h => h) (fun _ _ h => h)
    fun f s h r hr => hunread f h.2 r (h.1 r hr)).bind fun (sql, n) => ?_
  have hend : Triple (OnResult Q : SessionInfo π τ → Prop) (do
      modify fun s => { s with parsed := true, binded := false }
      modify (enter engine .readMessageType)) (fun _ => OnResult Q) (fun _ => OnResult Q) :=
    (modify_triple (by exact fun _ => rfl)).bind fun _ => modify_triple (enter_result engine _)
  intro s h
  refine (Triple.bind (hparse sql n h.2) fun _ => (onResult_get_triple Q Q).bind fun r => ?_) s h.1
  refine Triple.conseq (P := OnResult Q) ?_ (fun _ h => onResult_of_eq h) (fun _ _ h => h) fun _ _ h => h
  dsimp only
  split
  · exact Triple.bind (Q := fun _ => OnResult Q) (R := fun _ => OnResult Q) (Triple.of_throw _ fun _ h => h) fun _ => hend
  · exact hend

theorem handleBind_onResult {M : ParseResult τ → Prop} (block : Bytes) (len : Nat) (hmark : ∀ r, P r → M r.setMark)
    (hunread : ∀ n f, readBindParam block len n = .error f → ∀ r, M r → r.params = n → Q r)
    (hbind : ∀ n params, readBindParam block len n = .ok params →
      Triple (fun r => M r ∧ r.params = n) (ParseResult.bindAll engine 0 params) (fun _ => Q) (fun _ => Q)) :
    Triple (OnResult P : SessionInfo π τ → Prop) (handleBind engine block len) (fun _ => OnResult Q) (fun _ => OnResult Q) := by
  refine Triple.bind (Q := fun _ => OnResult M) ?_ fun _ => ?_
  · intro s hs
    rw [onResult]
    cases hr : s.result with
    | none =>
      intro r hr'
      rw [hr] at hr'
      cases hr'
    | some r =>
      intro r' hr'
      cases hr'
      exact hmark r (hs r hr)
  refine (onResult_get_triple M Q).bind fun r => ?_
  refine ((liftFallible_eq (P := fun s => s.result = some r ∧ M r) _).conseq (fun _ h => h) (fun _ _ h => h)
    fun f s h => onResult_of_eq ⟨h.1.1, hunread r.params f h.2 r h.1.2 rfl⟩).bind fun params s h => ?_
  refine Triple.bind (onResult_triple (hbind r.params params h.2)) (fun _ => (modify_triple (by exact fun _ => rfl)).bind
    fun _ => (resolve_onResult engine Q).bind fun _ => modify_triple (enter_result engine _)) s ?_
  exact onResult_of_eq ⟨h.1.1, h.1.2, rfl⟩

theorem readLen_onResult {s : SessionInfo π τ} (h : OnResult P s) (length : Nat) (block : Bytes)
    (hQ : s.qtype = char "Q" → Triple (OnResult P : SessionInfo π τ → Prop) (handleQuery engine block (length - 4))
      (fun _ => OnResult Q) (fun _ => OnResult Q))
    (hP : s.qtype = char "P" → Triple (OnResult P : SessionInfo π τ → Prop) (handleParse engine block (length - 4))
      (fun _ => OnResult Q) (fun _ => OnResult Q))
    (hB : s.qtype = char "B" → Triple (OnResult P : SessionInfo π τ → Prop) (handleBind engine block (length - 4))
      (fun _ => OnResult Q) (fun _ => OnResult Q))
    (hother : s.qtype ≠ char "Q" → s.qtype ≠ char "P" → s.qtype ≠ char "B" → ∀ r, P r → Q r) :
    OnResult Q (s.readLen engine length block) := by
  have hclose : OnResult Q s.close := fun r hr => by cases hr
  rw [readLen]
  split
  · exact hclose
  have hrun : ∀ {m : Handler π τ Unit}, Triple (OnResult P) m (fun _ => OnResult Q) (fun _ => OnResult Q) →
      handler engine s.qtype block (length - 4) = some m → OnResult Q (s.readData engine block (length - 4)) := by
    intro m hm hh
    rw [readData, hh]
    dsimp only
    cases hres : m s with
    | ok u t => exact hm.ok h hres
    | error f t => exact (hm.error h hres).of_result fun r hr => caught_result engine f t hr
  by_cases hqQ : s.qtype = char "Q"
  · exact hrun (hQ hqQ) (by rw [handler, hqQ]; rfl)
  by_cases hqP : s.qtype = char "P"
  · exact hrun (hP hqP) (by rw [handler, hqP]; rfl)
  by_cases hqB : s.qtype = char "B"
  · exact hrun (hB hqB) (by rw [handler, hqB]; rfl)
  have hrest : ∀ {m : Handler π τ Unit}, Triple (OnResult P) m (fun _ => OnResult P) (fun _ => OnResult P) →
      handler engine s.qtype block (length - 4) = some m → OnResult Q (s.readData engine block (length - 4)) := by
    intro m hm hh
    have hkeep : ∀ t : SessionInfo π τ, OnResult P t → OnResult Q t := fun t ht r hr => hother hqQ hqP hqB r (ht r hr)
    exact hrun (hm.conseq (fun _ h => h) (fun _ _ h => hkeep _ h) fun _ _ h => hkeep _ h) hh
  by_cases h0 : s.qtype = 0
  · exact hrest (handleStartup_onResult engine P block (length - 4)) (by rw [handler, if_pos h0])
  by_cases hS : s.qtype = char "S"
  · exact hrest (modify_triple (doWrite_result engine _ _)) (by rw [handler, if_neg h0, if_pos hS]; rfl)
  by_cases hD : s.qtype = char "D"
  · exact hrest (handleDescription_onResult engine P block (length - 4))
      (by rw [handler, if_neg h0, if_neg hS, if_neg hqQ, if_neg hqP, if_neg hqB, if_pos hD])
  by_cases hE : s.qtype = char "E"
  · exact hrest (modify_triple (enter_result engine .handleExecutionBegin))
      (by rw [handler, if_neg h0, if_neg hS, if_neg hqQ, if_neg hqP, if_neg hqB, if_neg hD, if_pos hE]; rfl)
  · rw [readData, handler, if_neg h0, if_neg hS, if_neg hqQ, if_neg hqP, if_neg hqB, if_neg hD, if_neg hE]
    exact hclose

theorem handleBind_bufferSafe (block : Bytes) (len : Nat) : Triple (BufferSafe False : SessionInfo π τ → Prop)
    (handleBind engine block len) (fun _ => BufferSafe True) (fun _ => BufferSafe True) :=
  handleBind_onResult engine block len (fun _ h => ⟨h.1.setMark.1, fun _ => h.1.setMark.2⟩) (fun _ _ _ _ h _ => h)
    fun _ params _ => (ParseResult.bindAll_triple engine True 0 params).conseq (fun _ h => h.1) (fun _ _ h => h) fun _ _ h => h

/-- The last statement message was a Bind, if it is known for the ones before. -/
def bindLast (type : UInt8) (K : Prop) : Prop :=
  if type = char "B" then True else if type = char "P" ∨ type = char "Q" then False else K

theorem readLen_bufferSafe {K : Prop} {s : SessionInfo π τ} (h : BufferSafe K s) (length : Nat) (block : Bytes) :
    BufferSafe (bindLast s.qtype K) (s.readLen engine length block) := by
  have hweak : BufferSafe False s := h.weaken
  rw [bindLast]
  by_cases hB : s.qtype = char "B"
  · rw [if_pos hB]
    exact readLen_onResult engine hweak length block (fun hQ => absurd (hB.symm.trans hQ) (by decide))
      (fun hP => absurd (hB.symm.trans hP) (by decide)) (fun _ => handleBind_bufferSafe engine block _)
      fun _ _ hne => absurd hB hne
  · rw [if_neg hB]
    by_cases hPQ : s.qtype = char "P" ∨ s.qtype = char "Q"
    · rw [if_pos hPQ]
      exact readLen_onResult engine hweak length block
        (fun _ => handleQuery_onResult engine block _ (fun _ _ _ h => h) fun sql _ => parse_bufferSafe engine sql)
        (fun _ => handleParse_onResult engine block _ (fun _ _ _ h => h) fun sql _ _ => parse_bufferSafe engine sql)
        (fun hq => absurd hq hB) fun _ _ _ _ h => h
    · rw [if_neg hPQ]
      exact readLen_onResult engine h length block (fun hQ => absurd (.inr hQ) hPQ) (fun hP => absurd (.inl hP) hPQ)
        (fun hq => absurd hq hB) fun _ _ _ _ h => h

end SessionInfo

namespace Server

open SessionInfo (BufferSafe bindLast readLen_bufferSafe caught_result doWrite_result enter_result)

variable (engine : Engine π δ τ)

/-- Of the messages that parse or bind, the last one was a Bind. -/
def LastBind (hist : List (Handled π)) : Prop :=
  ∃ b, hist.find? (fun m => [char "P", char "B", char "Q"].contains m.type) = some b ∧ b.type = char "B"

theorem lastBind_cons (m : Handled π) (hist : List (Handled π)) :
    LastBind (m :: hist) ↔ bindLast m.type (LastBind hist) := by
  rw [LastBind, bindLast, List.find?_cons]
  by_cases hB : m.type = char "B"
  · have hmem : [char "P", char "B", char "Q"].contains m.type = true := by
      rw [hB]
      decide
    rw [hmem, if_pos hB]
    exact ⟨fun _ => trivial, fun _ => ⟨m, rfl, hB⟩⟩
  · rw [if_neg hB]
    by_cases hPQ : m.type = char "P" ∨ m.type = char "Q"
    · have hmem : [char "P", char "B", char "Q"].contains m.type = true := by
        rcases hPQ with h | h <;> rw [h] <;> decide
      rw [hmem, if_pos hPQ]
      exact ⟨fun ⟨b, hb, ht⟩ => hB (by cases hb; exact ht), False.elim⟩
    · obtain ⟨hP, hQ⟩ := not_or.mp hPQ
      have hmem : [char "P", char "B", char "Q"].contains m.type = false := by
        simp [hP, hB, hQ]
      rw [hmem, if_neg hPQ]
      rfl

/-- The plan of an execution that has come to its end gives up what it holds. -/
def EndsExecution (s : Server π δ τ) : Prop :=
  s.session.control = .finishing ∧ ∃ p p' db, s.session.plan = some p ∧ engine.end (p, s.db) = .ok () (p', db)

/-- The step ends an execution and gives back what was allocated since the mark. -/
def Restores (s : Server π δ τ) (e : Event δ) (r : ParseResult τ) : Prop :=
  (∃ raised, e = .tick raised) ∧ s.session.control = .finishing ∧ s.session.result = some r ∧
    ∃ p p' db, s.session.plan = some p ∧ engine.end (p, s.db) = .ok () (p', db)

theorem handleExecutionDone_result {s : Server π δ τ} {p : π} {r : ParseResult τ}
    (h : (handleExecutionDone engine p s).session.result = some r) :
    s.session.result = some r ∧ (∃ f a, engine.end (p, s.db) = .error f a) ∨
      ∃ r' p' db, s.session.result = some r' ∧ r = r'.restore ∧ engine.end (p, s.db) = .ok () (p', db) := by
  rw [handleExecutionDone] at h
  cases hend : engine.end (p, s.db) with
  | error f a =>
    obtain ⟨p', db⟩ := a
    rw [hend] at h
    dsimp only at h
    have hres := caught_result engine _ _ h
    exact .inl ⟨hres, _, _, rfl⟩
  | ok u a =>
    obtain ⟨p', db⟩ := a
    rw [hend] at h
    cases hr : s.session.result with
    | none =>
      rw [hr] at h
      exact absurd (hr.symm.trans h) (by simp)
    | some r' =>
      rw [hr] at h
      dsimp only at h
      rw [doWrite_result] at h
      cases h
      exact .inr ⟨r', p', db, rfl, rfl, rfl⟩

theorem endsExecution_iff {s : Server π δ τ} {p : π} (hc : s.session.control = .finishing) (hp : s.session.plan = some p) :
    EndsExecution engine s ↔ ∃ p' db, engine.end (p, s.db) = .ok () (p', db) := by
  rw [EndsExecution, hp]
  constructor
  · rintro ⟨-, p1, p', db, hp1, hend⟩
    cases hp1
    exact ⟨p', db, hend⟩
  · rintro ⟨p', db, hend⟩
    exact ⟨hc, p, p', db, rfl, hend⟩

/-- Calls on a plan keep the parse result, up to the end of the execution. -/
theorem tick_result {s : Server π δ τ} {raised : Option Nat} {p : π} {r : ParseResult τ} (hp : s.session.plan = some p)
    (h : (tick engine raised p s).session.result = some r) :
    s.session.result = some r ∧ ¬EndsExecution engine s ∨
      ∃ r', s.session.result = some r' ∧ r = r'.restore ∧ EndsExecution engine s := by
  have hno : s.session.control ≠ .finishing → ¬EndsExecution engine s := fun hc he => hc he.1
  rw [tick] at h
  dsimp only at h
  cases hc : s.session.control with
  | finishing =>
    rw [hc] at h
    rw [endsExecution_iff engine hc hp]
    obtain ⟨hres, f, a, hend⟩ | ⟨r', p', db, hr', hrestore, hend⟩ := handleExecutionDone_result engine h
    · refine .inl ⟨hres, ?_⟩
      rintro ⟨p', db, hok⟩
      rw [hend] at hok
      cases hok
    · exact .inr ⟨r', hr', hrestore, p', db, hend⟩
  | beginning =>
    refine .inl ⟨?_, hno (by rw [hc]; simp)⟩
    rw [hc] at h
    dsimp only at h
    split at h
    · exact h
    · have hres := caught_result engine _ _ h
      exact hres
  | firstNext =>
    refine .inl ⟨?_, hno (by rw [hc]; simp)⟩
    rw [hc] at h
    dsimp only at h
    split at h
    · exact h
    · exact h
    · have hres := caught_result engine _ _ h
      exact hres
  | building columnNum w =>
    refine .inl ⟨?_, hno (by rw [hc]; simp)⟩
    rw [hc] at h
    dsimp only at h
    split at h
    · exact h
    · split at h
      · have hres := caught_result engine _ _ h
        exact hres
      · split at h
        · rwa [doWrite_result] at h
        · exact h
  | looping columnNum w =>
    refine .inl ⟨?_, hno (by rw [hc]; simp)⟩
    rw [hc] at h
    dsimp only at h
    split at h
    · exact h
    · rwa [doWrite_result] at h
    · have hres := caught_result engine _ _ h
      exact hres
  | _ =>
    refine .inl ⟨?_, hno (by rw [hc]; simp)⟩
    rw [hc] at h
    exact h

theorem bufferSafe_step {hist : List (Handled π)} {s : Server π δ τ} (h : BufferSafe (LastBind hist) s.session) (e : Event δ)
    (hr : ∀ r, Restores engine s e r → LastBind hist ∨ r.Kept) :
    BufferSafe (LastBind (s.handled engine e ++ hist)) (s.step engine e).session := by
  cases e with
  | message type length block =>
    cases hc : s.session.control with
    | reading =>
      simp only [handled, step, hc, List.singleton_append, lastBind_cons]
      rw [SessionInfo.readMessage]
      split
      · exact fun r hr => by cases hr
      · exact readLen_bufferSafe engine (s := { s.session with qtype := type }) (h.of_result fun _ hr => hr) length block
    | readingLength =>
      simp only [handled, step, hc, List.singleton_append, lastBind_cons]
      exact readLen_bufferSafe engine h length block
    | _ =>
      simp only [handled, step, hc]
      exact h
  | readError =>
    cases hc : s.session.control <;> simp only [handled, step, hc, List.nil_append] <;>
      first | exact h | exact fun r hr => by cases hr
  | written =>
    cases hc : s.session.control with
    | writing out fn =>
      simp only [handled, step, hc, List.nil_append]
      exact h.of_result fun r hr => by rwa [enter_result] at hr
    | _ =>
      simp only [handled, step, hc]
      exact h
  | writeError =>
    cases hc : s.session.control <;> simp only [handled, step, hc, List.nil_append] <;>
      first | exact h | exact fun r hr => by cases hr
  | tick raised =>
    have htick : ∀ p, s.session.plan = some p → BufferSafe (LastBind hist) (tick engine raised p s).session := by
      intro p hp r hres
      obtain ⟨hold, -⟩ | ⟨r', hr', rfl, hends⟩ := tick_result engine hp hres
      · exact h r hold
      · have hkept : r'.Kept := (hr r' ⟨⟨raised, rfl⟩, hends.1, hr', hends.2⟩).elim (h r' hr').2 id
        exact ⟨(h r' hr').1.restore hkept, fun _ => hkept⟩
    cases hc : s.session.control <;> simp only [handled, step, hc, List.nil_append] <;> first
      | exact h
      | (cases hp : s.session.plan with
        | none => exact h
        | some p => exact htick p hp)
  | cancel => exact h
  | commit db => exact h

/-- `P` holds in every state of the run. -/
def Always (s0 : Server π δ τ) (es : List (Event δ)) (P : Server π δ τ → Prop) : Prop :=
  ∀ before later, es = before ++ later → P (run engine s0 before)

/-- `P` holds whenever an execution of the run ends. -/
def AtRestores (s0 : Server π δ τ) (es : List (Event δ)) (P : List (Event δ) → ParseResult τ → Prop) : Prop :=
  ∀ before e later r, es = before ++ e :: later → Restores engine (run engine s0 before) e r → P before r

/-- Nothing overwrites a statement that can still be bound where every execution ends behind a Bind or with a mark that
does not lie within it. -/
theorem always_safe_iff_kept (s : SessionInfo π τ) (db : δ) (es : List (Event δ)) :
    Always engine ⟨s.start, db⟩ es (fun t => ∀ r, t.session.result = some r → r.Safe) ↔
      AtRestores engine ⟨s.start, db⟩ es (fun before r => LastBind (history engine ⟨s.start, db⟩ before) ∨ r.Kept) := by
  constructor
  · intro h before e later r hes hr
    obtain ⟨⟨raised, rfl⟩, hfin, hres, p, p', db', hp, hend⟩ := hr
    have hsafe := h (before ++ [.tick raised]) later (by rw [hes]; simp)
    rw [run_append] at hsafe
    refine .inr (ParseResult.kept_of_restore (hsafe r.restore ?_))
    simp only [step, hfin, hp, tick, handleExecutionDone, hend, hres, doWrite_result]
  · intro h before later hes r hr
    have hinv : ∀ before later, es = before ++ later →
        BufferSafe (LastBind (history engine ⟨s.start, db⟩ before)) (run engine ⟨s.start, db⟩ before).session := by
      intro before
      induction before using List.reverseRecOn with
      | nil =>
        intro later _ r hr
        cases hr
        have hun : ¬ ({} : ParseResult τ).Reachable := fun hr => hr.elim (fun h => h rfl) fun h => h rfl
        exact ⟨⟨fun hr => absurd hr hun, fun hr => absurd hr hun⟩, fun _ hr => absurd hr hun⟩
      | append_singleton before e ih =>
        intro later hes
        rw [history_append, run_append]
        exact bufferSafe_step engine (ih (e :: later) (by rw [hes]; simp)) e fun r hr =>
          h before e later r (by rw [hes]; simp) hr
    exact (hinv before later hes r hr).1

end Server

end LevelPgServer
