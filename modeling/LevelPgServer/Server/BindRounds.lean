import LevelPgServer.Lib.Runs
import LevelPgServer.Server.Handlers

namespace LevelPgServer

open PostgresProtocol StateRules Runs
open ParseNode (Operation)

/-- A node of `m_bindParamNodes`. -/
structure ParamNode where
  op : Operation := .unboundParam
  value : Bytes := []
  deriving DecidableEq

/-- A parse tree and the nodes of its parameters: nothing else of it is written after the
parser and the rewriter. -/
structure BoundTree (κ : Type) where
  root : κ
  params : List ParamNode
  deriving DecidableEq

variable {π δ κ : Type}

namespace BoundTree

def setBindParamMode (i : Nat) (binary : Bool) (t : BoundTree κ) : BoundTree κ :=
  { t with params := t.params.modify i fun n => { n with op := if binary then .binaryParam else .textParam } }

def setString (i : Nat) (value : Bytes) (t : BoundTree κ) : BoundTree κ :=
  { t with params := t.params.modify i fun n => { n with value := value } }

end BoundTree

/-- An engine whose parser leaves the parameters of a statement unbound. -/
structure ParamEngine (π δ κ : Type) extends ExecutionPlan π δ where
  parseSql : Bytes → ParseOutcome κ
  buildPlan : BoundTree κ → Fallible π
  emptyPlan : π
  conv : Conversions
  fmt : Formats

def ParamEngine.toEngine (e : ParamEngine π δ κ) : Engine π δ (BoundTree κ) where
  toExecutionPlan := e.toExecutionPlan
  parseSql sql :=
    let o := e.parseSql sql
    { tree := o.tree.map fun root => ⟨root, List.replicate o.params {}⟩, params := o.params, allocs := o.allocs, error := o.error }
  setBindParamMode := BoundTree.setBindParamMode
  setString := BoundTree.setString
  buildPlan := e.buildPlan
  emptyPlan := e.emptyPlan
  conv := e.conv
  fmt := e.fmt

namespace PostgresProtocol

theorem length_readParamModes {n : Nat} {r r' : PgDataReader} {modes : List Bool}
    (h : readParamModes n r = .ok (modes, r')) : modes.length = n := by
  induction n generalizing r r' modes with
  | zero =>
    cases h
    rfl
  | succ n ih =>
    rw [readParamModes] at h
    obtain ⟨⟨type, r1⟩, -, h⟩ := ExceptRules.bind_eq_ok.mp h
    dsimp only at h
    split at h
    · obtain ⟨⟨modes', r2⟩, hmodes, h⟩ := ExceptRules.bind_eq_ok.mp h
      cases h
      rw [List.length_cons, ih hmodes]
    · cases h

theorem length_readParamValues {n : Nat} {r r' : PgDataReader} {values : List Bytes}
    (h : readParamValues n r = .ok (values, r')) : values.length = n := by
  induction n generalizing r r' values with
  | zero =>
    cases h
    rfl
  | succ n ih =>
    rw [readParamValues] at h
    obtain ⟨⟨value, r1⟩, -, h⟩ := ExceptRules.bind_eq_ok.mp h
    obtain ⟨⟨values', r2⟩, hvalues, h⟩ := ExceptRules.bind_eq_ok.mp h
    cases h
    rw [List.length_cons, ih hvalues]

theorem length_readBindParam {block : Bytes} {len n : Nat} {ps : List (Bool × Bytes)}
    (h : readBindParam block len n = .ok ps) : ps.length = n := by
  rw [readBindParam] at h
  obtain ⟨_, -, h⟩ := ExceptRules.bind_eq_ok.mp h
  obtain ⟨_, -, h⟩ := ExceptRules.bind_eq_ok.mp h
  obtain ⟨_, -, h⟩ := ExceptRules.bind_eq_ok.mp h
  obtain ⟨_, -, h⟩ := ExceptRules.bind_eq_ok.mp h
  obtain ⟨_, hmodes, h⟩ := ExceptRules.bind_eq_ok.mp h
  obtain ⟨_, -, h⟩ := ExceptRules.bind_eq_ok.mp h
  obtain ⟨_, -, h⟩ := ExceptRules.bind_eq_ok.mp h
  obtain ⟨_, hvalues, h⟩ := ExceptRules.bind_eq_ok.mp h
  cases h
  rw [List.length_zip, length_readParamModes hmodes, length_readParamValues hvalues, min_self]

end PostgresProtocol

namespace BoundTree

@[simp] theorem root_setBindParamMode (i : Nat) (binary : Bool) (t : BoundTree κ) :
    (t.setBindParamMode i binary).root = t.root := rfl
@[simp] theorem root_setString (i : Nat) (value : Bytes) (t : BoundTree κ) : (t.setString i value).root = t.root := rfl
@[simp] theorem length_setBindParamMode (i : Nat) (binary : Bool) (t : BoundTree κ) :
    (t.setBindParamMode i binary).params.length = t.params.length := List.length_modify ..
@[simp] theorem length_setString (i : Nat) (value : Bytes) (t : BoundTree κ) :
    (t.setString i value).params.length = t.params.length := List.length_modify ..

theorem take_bind {i : Nat} (binary : Bool) (value : Bytes) {t u : BoundTree κ} (hlen : t.params.length = u.params.length)
    (h : t.params.take i = u.params.take i) :
    ((t.setBindParamMode i binary).setString i value).params.take (i + 1) =
      ((u.setBindParamMode i binary).setString i value).params.take (i + 1) := by
  apply List.ext_getElem?
  intro j
  have hj := congrArg (fun l => l[j]?) h
  simp only [setBindParamMode, setString, List.getElem?_take, List.getElem?_modify] at hj ⊢
  obtain hlt | rfl | hgt := Nat.lt_trichotomy j i
  · simpa [hlt, Nat.lt_succ_of_lt hlt, Nat.ne_of_gt hlt] using hj
  · simp only [Nat.lt_succ_self, if_true]
    by_cases hin : j < t.params.length
    · simp [hin, hlen ▸ hin]
    · simp [hin, hlen ▸ hin]
  · simp [Nat.not_lt.mpr (Nat.succ_le_of_lt hgt)]

end BoundTree

namespace ParseResult

/-- The bytes that a Bind takes of the `free` ones for its values. -/
def taken : Nat → List (Bool × Bytes) → Nat
  | _, [] => 0
  | free, (_, value) :: ps => if value.length ≤ free then value.length + taken (free - value.length) ps else 0

theorem taken_zero (ps : List (Bool × Bytes)) : taken 0 ps = 0 := by
  induction ps with
  | nil => rfl
  | cons p ps ih =>
    rw [taken]
    split
    · next h => rw [Nat.zero_sub, ih, Nat.le_zero.mp h]
    · rfl

def notEnough : Fault := .thrown (parseError "Not enough parse buffer")

/-- The parse result of a statement with a tree over `root`, if it has one, and `n` parameters. -/
structure Statement (root : Option κ) (n : Nat) (r : ParseResult (BoundTree κ)) : Prop where
  root : r.tree.map BoundTree.root = root
  params : r.params = n
  nodes : ∀ t, r.tree = some t → t.params.length = n

variable {e : ParamEngine π δ κ} {root : Option κ} {n : Nat}

theorem Statement.map {r : ParseResult (BoundTree κ)} (h : r.Statement root n) {f : BoundTree κ → BoundTree κ}
    (hroot : ∀ t, (f t).root = t.root) (hlen : ∀ t, (f t).params.length = t.params.length) {r' : ParseResult (BoundTree κ)}
    (htree : r'.tree = r.tree.map f) (hparams : r'.params = r.params) : r'.Statement root n where
  root := by
    rw [htree, Option.map_map, ← h.root]
    congr 1
    funext t
    exact hroot t
  params := hparams.trans h.params
  nodes := by
    intro t ht
    rw [htree] at ht
    obtain ⟨u, hu, rfl⟩ := Option.map_eq_some_iff.mp ht
    rw [hlen, h.nodes u hu]

theorem Statement.setBindParamMode {r : ParseResult (BoundTree κ)} (h : r.Statement root n) (i : Nat) (binary : Bool) :
    ({ r with tree := r.tree.map (BoundTree.setBindParamMode i binary) } : ParseResult (BoundTree κ)).Statement root n :=
  h.map (f := BoundTree.setBindParamMode i binary) (fun _ => rfl) (BoundTree.length_setBindParamMode i binary) rfl rfl

theorem Statement.setString {r : ParseResult (BoundTree κ)} (h : r.Statement root n) (i : Nat) (value : Bytes)
    (strings : List Region) :
    ({ r with tree := r.tree.map (BoundTree.setString i value), strings := strings } : ParseResult (BoundTree κ)).Statement root n :=
  h.map (f := BoundTree.setString i value) (fun _ => rfl) (BoundTree.length_setString i value) rfl rfl

theorem alloc_run {τ : Type} (size : Nat) (r : ParseResult τ) :
    alloc size r = if blockSize < r.current + size then .error notEnough r
      else .ok ⟨r.current, size⟩ { r with current := r.current + size } := rfl

theorem bindAll_takes (e : ParamEngine π δ κ) (root : Option κ) (n : Nat) (i : Nat) (ps : List (Bool × Bytes)) (mark current : Nat) :
    Triple (fun r : ParseResult (BoundTree κ) => r.Statement root n ∧ r.mark = mark ∧ r.current = current)
      (bindAll e.toEngine i ps)
      (fun _ r => r.Statement root n ∧ r.mark = mark ∧ r.current = current + taken (blockSize - current) ps)
      (fun _ r => r.Statement root n ∧ r.mark = mark ∧ r.current = current + taken (blockSize - current) ps) := by
  induction ps generalizing i current with
  | nil => exact Triple.of_pure () fun _ h => h
  | cons p ps ih =>
    obtain ⟨binary, value⟩ := p
    refine Triple.bind (Q := fun _ r => r.Statement root n ∧ r.mark = mark ∧ r.current = current)
      (Triple.of_modify _ fun r h => ⟨h.1.setBindParamMode i binary, h.2⟩) fun _ => ?_
    by_cases hfit : blockSize < current + value.length
    · have htaken : taken (blockSize - current) ((binary, value) :: ps) = 0 := by
        rw [taken]
        split
        · rw [show blockSize - current = 0 by omega, Nat.zero_sub, taken_zero]
          omega
        · rfl
      rw [htaken]
      refine Triple.bind (Q := fun _ _ => False) ?_ fun _ _ h => h.elim
      rintro r ⟨hr, hmark, rfl⟩
      rw [alloc_run, if_pos hfit]
      exact ⟨hr, hmark, rfl⟩
    · have htaken : taken (blockSize - current) ((binary, value) :: ps) =
          value.length + taken (blockSize - (current + value.length)) ps := by
        rw [taken, if_pos (by omega), Nat.sub_sub]
      rw [htaken, ← Nat.add_assoc]
      refine Triple.bind (Q := fun _ r => r.Statement root n ∧ r.mark = mark ∧ r.current = current + value.length) ?_ fun s =>
        Triple.bind (Q := fun _ r => r.Statement root n ∧ r.mark = mark ∧ r.current = current + value.length)
          (Triple.of_modify _ fun r h => ⟨h.1.setString i value _, h.2⟩) fun _ => ih (i + 1) (current + value.length)
      rintro r ⟨hr, hmark, rfl⟩
      rw [alloc_run, if_neg hfit]
      exact ⟨hr.map (f := id) (fun _ => rfl) (fun _ => rfl) Option.map_id'.symm rfl, hmark, rfl⟩

theorem parse_statement (sql : Bytes) : Triple (fun _ : ParseResult (BoundTree κ) => True) (parse e.toEngine sql)
    (fun _ r => ∃ root, r.Statement root r.params) (fun _ _ => True) := by
  refine (Triple.of_modify (Q := fun _ _ => True) _ fun _ _ => trivial).bind fun _ =>
    Triple.bind (Q := fun _ _ => True) ?_ fun s =>
      (Triple.of_modify (Q := fun _ r => ∃ root, r.Statement root r.params) _ fun r _ => ?_).bind fun _ => ?_
  · intro r _
    split <;> trivial
  · refine ⟨_, rfl, rfl, fun t ht => ?_⟩
    obtain ⟨root, -, rfl⟩ := Option.map_eq_some_iff.mp ht
    exact List.length_replicate ..
  · cases (e.toEngine.parseSql sql).error with
    | some x => exact Triple.of_throw _ fun _ _ => trivial
    | none => exact Triple.of_pure _ fun _ h => h

/-- Two parse results of the same statement, with the same room left, whose trees agree on what
`f` looks at. -/
structure Agrees (root : Option κ) (n : Nat) (f : BoundTree κ → List ParamNode) (r t : ParseResult (BoundTree κ)) : Prop where
  left : r.Statement root n
  right : t.Statement root n
  current : r.current = t.current
  bound : ∀ x y, r.tree = some x → t.tree = some y → f x = f y

theorem Agrees.tree_eq {r t : ParseResult (BoundTree κ)} (h : Agrees root n (fun x => x.params.take n) r t) :
    r.tree = t.tree := by
  have hroot := h.left.root.trans h.right.root.symm
  cases hr : r.tree with
  | none =>
    rw [hr] at hroot
    exact (Option.map_eq_none_iff.mp hroot.symm).symm
  | some x =>
    rw [hr] at hroot
    obtain ⟨y, hy, hxy⟩ := Option.map_eq_some_iff.mp hroot.symm
    have hparams := h.bound x y hr hy
    simp only [List.take_of_length_le (h.left.nodes x hr).le, List.take_of_length_le (h.right.nodes y hy).le] at hparams
    rw [hy]
    cases x
    cases y
    cases hxy
    cases hparams
    rfl

/-- Two Binds of the same values to the same statement, with the same room left, end alike. -/
theorem bindAll_lockstep (i : Nat) (ps : List (Bool × Bytes)) :
    Lockstep (Agrees root n fun x => x.params.take i) (bindAll e.toEngine i ps)
      (Agrees root n fun x => x.params.take (i + ps.length)) (fun _ _ => True) := by
  induction ps generalizing i with
  | nil => exact Lockstep.of_pure () fun _ _ h => h
  | cons p ps ih =>
    obtain ⟨binary, value⟩ := p
    rw [show i + ((binary, value) :: ps).length = i + 1 + ps.length by rw [List.length_cons]; omega]
    let named : BoundTree κ → List ParamNode := fun x => (x.setString i value).params.take (i + 1)
    refine Lockstep.bind (S := Agrees root n named) (Lockstep.of_modify _ fun r t h =>
      ⟨h.left.setBindParamMode i binary, h.right.setBindParamMode i binary, h.current, ?_⟩) fun _ => ?_
    · intro _ _ hx hy
      obtain ⟨x, hx', rfl⟩ := Option.map_eq_some_iff.mp hx
      obtain ⟨y, hy', rfl⟩ := Option.map_eq_some_iff.mp hy
      exact BoundTree.take_bind binary value ((h.left.nodes x hx').trans (h.right.nodes y hy').symm)
        (h.bound x y hx' hy')
    refine Lockstep.bind (S := Agrees root n named) ?_ fun s => ?_
    · intro r t h
      rw [alloc_run, alloc_run, h.current]
      by_cases hfull : blockSize < t.current + value.length
      · rw [if_pos hfull, if_pos hfull]
        exact ⟨rfl, trivial⟩
      · rw [if_neg hfull, if_neg hfull]
        have hleft : ∀ (r : ParseResult (BoundTree κ)) (current : Nat), r.Statement root n →
            ({ r with current := current } : ParseResult (BoundTree κ)).Statement root n :=
          fun r current hr => ⟨hr.root, hr.params, hr.nodes⟩
        exact ⟨rfl, hleft r _ h.left, hleft t _ h.right, rfl, h.bound⟩
    · refine Lockstep.bind (S := Agrees root n fun x => x.params.take (i + 1)) (Lockstep.of_modify _ fun r t h =>
        ⟨h.left.setString i value _, h.right.setString i value _, h.current, ?_⟩) fun _ => ih (i + 1)
      intro _ _ hx hy
      obtain ⟨x, hx', rfl⟩ := Option.map_eq_some_iff.mp hx
      obtain ⟨y, hy', rfl⟩ := Option.map_eq_some_iff.mp hy
      exact h.bound x y hx' hy'

end ParseResult

namespace SessionInfo

variable {e : ParamEngine π δ κ}

/-- What a Bind comes to: the plan behind it, or what it throws. -/
def bindOutcome {τ : Type} (engine : Engine π δ τ) (block : Bytes) (len : Nat) (s : SessionInfo π τ) : Fallible (Option π) :=
  match handleBind engine block len s with
  | .ok _ s' => .ok s'.plan
  | .error f _ => .error f

variable {α β τ : Type}

theorem onResult_bind {s : SessionInfo π τ} {r : ParseResult τ} (hs : s.result = some r)
    (m : EStateM Fault (ParseResult τ) α) (f : α → Handler π τ β) :
    (onResult m >>= f) s =
      match m r with
      | .ok a r' => f a { s with result := some r' }
      | .error e r' => .error e { s with result := some r' } := by
  simp only [Bind.bind, EStateM.bind, onResult, hs]
  cases m r with
  | ok a r' => rfl
  | error e r' => rfl

theorem liftFallible_bind (s : SessionInfo π τ) (x : Fallible α) (f : α → Handler π τ β) :
    (liftFallible x >>= f) s =
      match x with
      | .ok a => f a s
      | .error e => .error e s := by
  cases x with
  | ok a => rfl
  | error e => rfl

theorem onResult_modify_bind {s : SessionInfo π τ} {r : ParseResult τ} (hs : s.result = some r)
    (g : ParseResult τ → ParseResult τ) (f : PUnit → Handler π τ β) :
    (onResult (modify g) >>= f) s = f ⟨⟩ { s with result := some (g r) } := onResult_bind hs (modify g) f

theorem onResult_get_bind {s : SessionInfo π τ} {r : ParseResult τ} (hs : s.result = some r)
    (f : ParseResult τ → Handler π τ β) : (onResult get >>= f) s = f r s := by
  obtain ⟨index, plan, result⟩ := s
  cases hs
  exact onResult_bind rfl get f

theorem modify_bind (s : SessionInfo π τ) (g : SessionInfo π τ → SessionInfo π τ) (f : PUnit → Handler π τ β) :
    (modify g >>= f) s = f ⟨⟩ (g s) := rfl

theorem resolve_bind (engine : Engine π δ τ) {s : SessionInfo π τ} {r : ParseResult τ} (hs : s.result = some r)
    (f : PUnit → Handler π τ β) :
    (resolve engine >>= f) s =
      match r.tree with
      | none => f ⟨⟩ { s with plan := some engine.emptyPlan }
      | some tree =>
        match engine.buildPlan tree with
        | .ok p => f ⟨⟩ { s with plan := some p }
        | .error e => .error e s := by
  rw [resolve, bind_assoc, onResult_get_bind hs]
  cases r.tree with
  | none => rfl
  | some tree =>
    dsimp only
    rw [bind_assoc, liftFallible_bind]
    cases engine.buildPlan tree with
    | ok p => rfl
    | error e => rfl

/-- A Bind reads of the parse result what the statement is and how much of the buffer is taken. -/
theorem handleBind_run (engine : Engine π δ τ) {s : SessionInfo π τ} {r : ParseResult τ} (hs : s.result = some r)
    (block : Bytes) (len : Nat) :
    handleBind engine block len s =
      match readBindParam block len r.params with
      | .error f => .error f { s with result := some r.setMark }
      | .ok ps =>
        match ParseResult.bindAll engine 0 ps r.setMark with
        | .error f r' => .error f { s with result := some r' }
        | .ok _ r' =>
          match r'.tree with
          | none => .ok ⟨⟩ { s with result := some r', binded := true, plan := some engine.emptyPlan, control := .reading }
          | some t =>
            match engine.buildPlan t with
            | .error f => .error f { s with result := some r', binded := true }
            | .ok p => .ok ⟨⟩ { s with result := some r', binded := true, plan := some p, control := .reading } := by
  rw [handleBind, onResult_modify_bind hs, onResult_get_bind rfl, liftFallible_bind]
  rw [show r.setMark.params = r.params from rfl]
  cases readBindParam block len r.params with
  | error f => rfl
  | ok ps =>
    dsimp only
    rw [onResult_bind rfl]
    cases ParseResult.bindAll engine 0 ps r.setMark with
    | error f r' => rfl
    | ok a r' =>
      dsimp only
      rw [modify_bind, resolve_bind engine rfl]
      cases r'.tree with
      | none => rfl
      | some t =>
        dsimp only
        cases engine.buildPlan t with
        | error f => rfl
        | ok p => rfl

/-- A Bind to the same statement with the same room left comes to the same. -/
theorem bindOutcome_eq {s t : SessionInfo π (BoundTree κ)} {root : Option κ} {n : Nat} {x y : ParseResult (BoundTree κ)}
    (hs : s.result = some x) (ht : t.result = some y) (hx : x.Statement root n) (hy : y.Statement root n)
    (hcurrent : x.current = y.current) (block : Bytes) (len : Nat) :
    bindOutcome e.toEngine block len s = bindOutcome e.toEngine block len t := by
  rw [bindOutcome, bindOutcome, handleBind_run _ hs, handleBind_run _ ht, hx.params, hy.params]
  cases hps : readBindParam block len n with
  | error f => rfl
  | ok ps =>
    dsimp only
    have hagrees : ParseResult.Agrees root n (fun x => x.params.take 0) x.setMark y.setMark :=
      ⟨⟨hx.root, hx.params, hx.nodes⟩, ⟨hy.root, hy.params, hy.nodes⟩, hcurrent, fun _ _ _ _ => rfl⟩
    have hrun := ParseResult.bindAll_lockstep (e := e) 0 ps _ _ hagrees
    have hlen : 0 + ps.length = n := (Nat.zero_add _).trans (length_readBindParam hps)
    rw [hlen] at hrun
    cases h1 : ParseResult.bindAll e.toEngine 0 ps x.setMark with
    | error f r =>
      cases h2 : ParseResult.bindAll e.toEngine 0 ps y.setMark with
      | error g r' =>
        rw [h1, h2] at hrun
        rw [hrun.1]
      | ok a r' =>
        rw [h1, h2] at hrun
        exact hrun.elim
    | ok a r =>
      cases h2 : ParseResult.bindAll e.toEngine 0 ps y.setMark with
      | error g r' =>
        rw [h1, h2] at hrun
        exact hrun.elim
      | ok b r' =>
        rw [h1, h2] at hrun
        dsimp only
        rw [hrun.2.tree_eq]
        cases r'.tree with
        | none => rfl
        | some tree =>
          dsimp only
          cases e.toEngine.buildPlan tree with
          | error f => rfl
          | ok p => rfl

def takes (r : ParseResult τ) (block : Bytes) (len : Nat) : Nat :=
  match readBindParam block len r.params with
  | .ok ps => ParseResult.taken (blockSize - r.current) ps
  | .error _ => 0

theorem caught_result_eq (engine : Engine π δ τ) (f : Fault) {s : SessionInfo π τ} (hq : s.qtype ≠ 0) :
    (s.caught engine f).result = s.result := by
  cases f with
  | undefined => rfl
  | thrown e => rw [caught, if_neg hq, doWrite_result]

theorem handler_bind (engine : Engine π δ τ) (block : Bytes) (len : Nat) :
    handler engine (char "B") block len = some (handleBind engine block len) := rfl

theorem readLen_bind {s : SessionInfo π (BoundTree κ)} (hq : s.qtype = char "B") {r : ParseResult (BoundTree κ)}
    (hs : s.result = some r) {root : Option κ} {n : Nat} (hr : r.Statement root n) {length : Nat}
    (hlength : ¬ (length < 4 ∨ blockSize < length - 4)) (block : Bytes) :
    ∃ r', (s.readLen e.toEngine length block).result = some r' ∧ r'.Statement root n ∧ r'.mark = r.current ∧
      r'.current = r.current + takes r block (length - 4) := by
  rw [readLen, if_neg hlength, readData, hq, handler_bind]
  dsimp only
  rw [handleBind_run _ hs, takes]
  have hqtype : s.qtype ≠ 0 := by
    rw [hq]
    decide
  cases hps : readBindParam block (length - 4) r.params with
  | error f =>
    dsimp only
    rw [caught_result_eq e.toEngine f (by exact hqtype)]
    exact ⟨r.setMark, rfl, ⟨hr.root, hr.params, hr.nodes⟩, rfl, rfl⟩
  | ok ps =>
    dsimp only
    have hrun := ParseResult.bindAll_takes e root n 0 ps r.current r.current r.setMark
      ⟨⟨hr.root, hr.params, hr.nodes⟩, rfl, rfl⟩
    cases hbind : ParseResult.bindAll e.toEngine 0 ps r.setMark with
    | error f r' =>
      rw [hbind] at hrun
      dsimp only
      rw [caught_result_eq e.toEngine f (by exact hqtype)]
      exact ⟨r', rfl, hrun⟩
    | ok a r' =>
      rw [hbind] at hrun
      dsimp only
      cases r'.tree with
      | none => exact ⟨r', rfl, hrun⟩
      | some tree =>
        dsimp only
        cases e.toEngine.buildPlan tree with
        | error f =>
          dsimp only
          rw [caught_result_eq e.toEngine f (by exact hqtype)]
          exact ⟨r', rfl, hrun⟩
        | ok p => exact ⟨r', rfl, hrun⟩

theorem caught_closed_or (engine : Engine π δ τ) (f : Fault) (s : SessionInfo π τ) :
    (s.caught engine f).control = .closed ∨ (s.caught engine f).result = s.result := by
  by_cases hq : s.qtype = 0
  · cases f with
    | undefined => exact .inr rfl
    | thrown e =>
      rw [caught, if_pos hq]
      exact .inl rfl
  · exact .inr (caught_result_eq engine f hq)

/-- Only Parse, Query and Bind touch the parse result of a session that goes on. -/
theorem Responds.result {engine : Engine π δ τ} {s t : SessionInfo π τ} {f : Option Fault} {ok : Bool}
    (h : Responds engine s t f ok) (hP : s.qtype ≠ char "P") (hQ : s.qtype ≠ char "Q") (hB : s.qtype ≠ char "B") :
    t.control = .closed ∨ t.result = s.result := by
  cases h with
  | closed => exact .inl rfl
  | startup hq out fn hfn => exact .inr (doWrite_result engine _ _ s)
  | query hq | queryFailed hq => exact absurd hq hQ
  | parse hq | parseFailed hq => exact absurd hq hP
  | bind hq | bindFailed hq => exact absurd hq hB
  | startupFailed hq f | describeFailed hq f => exact caught_closed_or engine f s
  | _ => exact .inr rfl

theorem onResult_ok {m : EStateM Fault (ParseResult τ) α} {P : ParseResult τ → Prop} {Q : α → ParseResult τ → Prop}
    {R : Fault → ParseResult τ → Prop} (h : Triple P m Q R) :
    Triple (fun s : SessionInfo π τ => ∀ r, s.result = some r → P r) (onResult m)
      (fun a s => ∃ r, s.result = some r ∧ Q a r) (fun _ _ => True) := by
  intro s hs
  rw [onResult]
  cases hr : s.result with
  | none => trivial
  | some r =>
    have hrun := h r (hs r hr)
    dsimp only
    cases hm : m r with
    | ok a r' =>
      rw [hm] at hrun
      exact ⟨r', rfl, hrun⟩
    | error f r' => trivial

theorem parse_statement (sql : Bytes) : Triple (fun _ : SessionInfo π (BoundTree κ) => True) (parse e.toEngine sql)
    (fun _ s => ∃ r, s.result = some r ∧ ∃ root, r.Statement root r.params) (fun _ _ => True) := by
  refine ((onResult_ok (P := fun _ => True) (Q := fun _ r => r.tree = none) (R := fun _ _ => True)
    (Triple.of_modify _ fun _ _ => rfl)).bind fun _ => ?_).conseq (fun _ _ _ _ => trivial) (fun _ _ h => h) fun _ _ h => h
  split
  · refine Triple.of_pure () ?_
    rintro s ⟨r, hr, htree⟩
    exact ⟨r, hr, none, by rw [htree]; rfl, rfl, fun t ht => absurd (htree.symm.trans ht) (by simp)⟩
  · refine (onResult_ok (P := fun _ => True) (Q := fun _ r => ∃ root, r.Statement root r.params) (R := fun _ _ => True) ?_).conseq
      (fun _ _ _ _ => trivial) (fun _ _ h => h) fun _ _ h => h
    exact ParseResult.parse_statement sql

theorem handleParse_statement (block : Bytes) (len : Nat) :
    Triple (fun _ : SessionInfo π (BoundTree κ) => True) (handleParse e.toEngine block len)
      (fun _ s => ∃ r, s.result = some r ∧ ∃ root, r.Statement root r.params) (fun _ _ => True) := by
  let Q : SessionInfo π (BoundTree κ) → Prop := fun s => ∃ r, s.result = some r ∧ ∃ root, r.Statement root r.params
  refine (liftFallible_triple _).bind fun a => (parse_statement a.1).bind fun _ =>
    Triple.bind (Q := fun _ => Q) ?_ fun r => ?_
  · rintro s ⟨r, hr, hstatement⟩
    rw [onResult, hr]
    exact ⟨r, rfl, hstatement⟩
  have hrest : Triple Q ((do
      modify fun s => { s with parsed := true, binded := false }
      modify (enter e.toEngine .readMessageType)) : Handler π (BoundTree κ) Unit) (fun _ => Q) (fun _ _ => True) :=
    Triple.bind (Q := fun _ => Q) (Triple.of_modify _ fun _ h => h) fun _ => Triple.of_modify _ fun _ h => h
  dsimp only
  split
  · exact Triple.bind (Q := fun _ => Q) (R := fun _ _ => True) (Triple.of_throw _ fun _ _ => trivial) fun _ => hrest
  · exact hrest

end SessionInfo

namespace Server

variable {τ : Type}

def Reparses (s : Server π δ τ) (e : Event δ) : Prop :=
  ∃ m ∈ s.received e, m.1.qtype = char "P" ∨ m.1.qtype = char "Q"

instance (s : Server π δ τ) (e : Event δ) : Decidable (s.Reparses e) := inferInstanceAs (Decidable (∃ m ∈ s.received e, _))

def Binds (s : Server π δ τ) (e : Event δ) (length : Nat) (block : Bytes) : Prop :=
  (∃ t, s.received e = some (t, length, block) ∧ t.qtype = char "B") ∧ ¬ (length < 4 ∨ blockSize < length - 4)

inductive Affects (engine : Engine π δ (BoundTree κ)) (s : Server π δ (BoundTree κ)) (e : Event δ) (root : Option κ) (n : Nat)
    (r : ParseResult (BoundTree κ)) : SessionInfo π (BoundTree κ) → Prop
  | closed {t : SessionInfo π (BoundTree κ)} (h : t.control = .closed) : Affects engine s e root n r t
  | bound {t : SessionInfo π (BoundTree κ)} {length : Nat} {block : Bytes} (hb : s.Binds e length block)
      {r' : ParseResult (BoundTree κ)} (ht : t.result = some r') (hr : r'.Statement root n) (hmark : r'.mark = r.current)
      (hcurrent : r'.current = r.current + SessionInfo.takes r block (length - 4)) : Affects engine s e root n r t
  | restored {t : SessionInfo π (BoundTree κ)} (h : Restores engine s e r) (ht : t.result = some r.restore) :
      Affects engine s e root n r t
  | kept {t : SessionInfo π (BoundTree κ)} (hb : ∀ length block, ¬ s.Binds e length block) (hr : ¬ Restores engine s e r)
      (ht : t.result = some r) : Affects engine s e root n r t

theorem received_affects (e : ParamEngine π δ κ) {s : Server π δ (BoundTree κ)} {x : Event δ} (hx : ¬ s.Reparses x)
    (hmessage : ∀ raised, x ≠ .tick raised) {root : Option κ} {n : Nat} {r : ParseResult (BoundTree κ)}
    (hr : r.Statement root n) {t : SessionInfo π (BoundTree κ)} (ht : t.result = some r) {length : Nat} {block : Bytes}
    (hreceived : s.received x = some (t, length, block)) :
    Affects e.toEngine s x root n r (t.readLen e.toEngine length block) := by
  by_cases hlength : length < 4 ∨ blockSize < length - 4
  · rw [SessionInfo.readLen, if_pos hlength]
    exact .closed rfl
  by_cases hB : t.qtype = char "B"
  · obtain ⟨r', hr', hstatement, hmark, hcurrent⟩ := SessionInfo.readLen_bind (e := e) hB ht hr hlength block
    exact .bound ⟨⟨t, hreceived, hB⟩, hlength⟩ hr' hstatement hmark hcurrent
  obtain ⟨hP, hQ⟩ := not_or.mp fun h => hx ⟨(t, length, block), hreceived, h⟩
  obtain hclosed | hresult :=
    SessionInfo.Responds.result (SessionInfo.readLen_responds e.toEngine length block t) hP hQ hB
  · exact .closed hclosed
  · refine .kept ?_ (fun h => ?_) (hresult.trans ht)
    · rintro length' block' ⟨⟨t', ht', hB'⟩, -⟩
      rw [hreceived] at ht'
      cases ht'
      exact hB hB'
    · obtain ⟨raised, hraised⟩ := h.1
      exact hmessage raised hraised

theorem Ticks.affects {e : ParamEngine π δ κ} {s t : Server π δ (BoundTree κ)} {raised : Option Nat} {p : π}
    {f : Option Fault} (h : Ticks e.toEngine raised p s t f) (hp : s.session.plan = some p) {root : Option κ} {n : Nat}
    {r : ParseResult (BoundTree κ)} (hs : s.session.result = some r) :
    Affects e.toEngine s (.tick raised) root n r t.session := by
  have hbinds : ∀ length block, ¬ s.Binds (.tick raised) length block := by
    rintro length block ⟨⟨t, ht, -⟩, -⟩
    cases ht
  have hrestores : s.session.control ≠ .finishing → ¬ Restores e.toEngine s (.tick raised) r := fun hne h => hne h.2.1
  cases h with
  | begun hc' | row hc' | noRow hc' | skipped hc' | built hc' | again hc' =>
    exact .kept hbinds (hrestores (by simp [hc'])) hs
  | flushed hc' =>
    exact .kept hbinds (hrestores (by simp [hc'])) (by rw [SessionInfo.doWrite_result]; exact hs)
  | ended hc' =>
    exact .kept hbinds (hrestores (by simp [hc'])) (by rw [SessionInfo.doWrite_result]; exact hs)
  | failed hc' q f =>
    obtain hclosed | hresult := SessionInfo.caught_closed_or e.toEngine f { raise raised s.session with plan := some q }
    · exact .closed hclosed
    · exact .kept hbinds (hrestores hc') (hresult.trans hs)
  | endFailed hc' h =>
    obtain hclosed | hresult := SessionInfo.caught_closed_or e.toEngine _ { raise raised s.session with plan := some _ }
    · exact .closed hclosed
    · refine .kept hbinds (fun hrestore => ?_) (hresult.trans hs)
      obtain ⟨-, -, -, p', q, db, hp', hend⟩ := hrestore
      cases hp.symm.trans hp'
      rw [h] at hend
      cases hend
  | lost hc' h hnone => exact absurd (hnone.symm.trans hs) (by simp)
  | done hc' h hr =>
    cases hr.symm.trans hs
    exact .restored ⟨⟨raised, rfl⟩, hc', hs, p, _, _, hp, h⟩ (by rw [SessionInfo.doWrite_result])

theorem step_affects (e : ParamEngine π δ κ) {s : Server π δ (BoundTree κ)} {x : Event δ} (hx : ¬ s.Reparses x)
    {root : Option κ} {n : Nat} {r : ParseResult (BoundTree κ)} (hs : s.session.result = some r) (hr : r.Statement root n) :
    Affects e.toEngine s x root n r (s.step e.toEngine x).session := by
  have hkept : s.received x = none → (∀ raised, x = .tick raised → ¬ Restores e.toEngine s x r) →
      ∀ t : SessionInfo π (BoundTree κ), t.result = some r → Affects e.toEngine s x root n r t := by
    intro hnone htick t ht
    refine .kept ?_ (fun h => ?_) ht
    · rintro length block ⟨⟨u, hu, -⟩, -⟩
      rw [hnone] at hu
      cases hu
    · obtain ⟨raised, hraised⟩ := id h.1
      exact htick raised hraised h
  cases x with
  | message type length block =>
    cases hc : s.session.control with
    | reading =>
      simp only [step, hc]
      rw [SessionInfo.readMessage]
      split
      · exact .closed rfl
      · next htype => exact received_affects e hx (by simp) hr (by exact hs) (by simp [received, hc, htype])
    | readingLength =>
      simp only [step, hc]
      exact received_affects e hx (by simp) hr hs (by simp [received, hc])
    | _ =>
      simp only [step, hc]
      exact hkept (by simp [received, hc]) (by simp) _ hs
  | tick raised =>
    by_cases hc : s.session.control.Executing
    · cases hp : s.session.plan with
      | none =>
        refine hkept rfl (fun _ _ h => ?_) _ ?_
        · obtain ⟨-, -, -, p, q, db, hp', -⟩ := h
          cases hp.symm.trans hp'
        · cases hcontrol : s.session.control <;> simp_all [Control.Executing, step]
      | some p =>
        rw [step_tick hc hp]
        exact (tick_ticks e.toEngine hc raised p).affects hp hs
    · rw [step_tick_idle hc]
      refine hkept rfl (fun _ _ h => hc ?_) _ hs
      rw [h.2.1]
      trivial
  | written =>
    cases hc : s.session.control with
    | writing out fn =>
      simp only [step, hc]
      exact hkept rfl (by simp) _ (by rw [SessionInfo.enter_result]; exact hs)
    | _ =>
      simp only [step, hc]
      exact hkept rfl (by simp) _ hs
  | readError =>
    cases hc : s.session.control with
    | reading | readingLength =>
      simp only [step, hc]
      exact .closed rfl
    | _ =>
      simp only [step, hc]
      exact hkept rfl (by simp) _ hs
  | writeError =>
    cases hc : s.session.control with
    | writing out fn =>
      simp only [step, hc]
      exact .closed rfl
    | _ =>
      simp only [step, hc]
      exact hkept rfl (by simp) _ hs
  | cancel | commit => exact hkept rfl (by simp) _ hs

def Parses (engine : Engine π δ τ) (s : Server π δ τ) (x : Event δ) : Prop :=
  ∃ t length block, s.received x = some (t, length, block) ∧ t.qtype = char "P" ∧ t.succeeds engine length block = true

theorem Parses.statement {e : ParamEngine π δ κ} {s : Server π δ (BoundTree κ)} {x : Event δ} (h : Parses e.toEngine s x) :
    ∃ r root, (s.step e.toEngine x).session.result = some r ∧ r.Statement root r.params := by
  obtain ⟨t, length, block, hreceived, hq, hok⟩ := h
  rw [step_received hreceived]
  rw [SessionInfo.succeeds] at hok
  split at hok
  · cases hok
  · next hlength =>
    have hhandler : SessionInfo.handler e.toEngine t.qtype block (length - 4) =
        some (SessionInfo.handleParse e.toEngine block (length - 4)) := by
      rw [hq]
      rfl
    rw [SessionInfo.readLen, if_neg hlength, SessionInfo.readData, hhandler]
    rw [hhandler] at hok
    dsimp only at hok ⊢
    cases hrun : SessionInfo.handleParse e.toEngine block (length - 4) t with
    | ok a t' =>
      obtain ⟨r, hr, root, hstatement⟩ := (SessionInfo.handleParse_statement block (length - 4)).ok trivial hrun
      exact ⟨r, root, hr, hstatement⟩
    | error f t' =>
      rw [hrun] at hok
      cases hok

/-- The event hands the session a Bind that takes room in the parse buffer. -/
def TakesRoom (s : Server π δ τ) (x : Event δ) : Prop :=
  ∃ length block r, s.Binds x length block ∧ s.session.result = some r ∧ SessionInfo.takes r block (length - 4) ≠ 0

variable (engine : Engine π δ (BoundTree κ))

/-- Rounds of a Bind and an Execute: no other statement is parsed, and what is executed was bound
in one of the rounds. -/
def Rounds (s : Server π δ (BoundTree κ)) : List (Event δ) → Prop :=
  AtEach fun before x => ¬ (run engine s before).Reparses x ∧
    (Ends engine (run engine s before) x →
      Occurs (step engine) (fun s x => ∃ length block, Binds s x length block) s before)

/-- A Bind at `s` is like one at `s0`: there is as much room for its values, and for whatever values
it comes to the same plan or the same error. -/
structure AsFirst (s0 s : Server π δ (BoundTree κ)) : Prop where
  room : ∃ r0 r, s0.session.result = some r0 ∧ s.session.result = some r ∧ r.current = r0.current
  bind : ∀ block len, s.session.bindOutcome engine block len = s0.session.bindOutcome engine block len

def EachAsFirst (s : Server π δ (BoundTree κ)) : List (Event δ) → Prop :=
  AtEach fun before x => ∀ length block, (run engine s before).Binds x length block → AsFirst engine s (run engine s before)

/-- At every Bind of the run, an execution has ended since the last Bind that took room. -/
def NoneLeft (s : Server π δ (BoundTree κ)) : List (Event δ) → Prop :=
  AtEach fun before x => ∀ length block, (run engine s before).Binds x length block →
    ¬ Since (step engine) TakesRoom (Ends engine) s before

variable {engine} {e : ParamEngine π δ κ}

theorem not_binds_of_closed {s : Server π δ τ} (h : s.session.control = .closed) (x : Event δ) (length : Nat) (block : Bytes) :
    ¬ s.Binds x length block := by
  rintro ⟨⟨t, ht, -⟩, -⟩
  cases x <;> simp [received, h] at ht

/-- What is known of the parse result in the rounds of a statement as long as nothing is left. -/
structure Settled (engine : Engine π δ (BoundTree κ)) (s0 : Server π δ (BoundTree κ)) (root : Option κ) (n current : Nat)
    (es : List (Event δ)) (r : ParseResult (BoundTree κ)) : Prop where
  statement : r.Statement root n
  mark : Occurs (step engine) (fun s x => ∃ length block, Binds s x length block) s0 es → r.mark = current
  current : ¬ Since (step engine) TakesRoom (Ends engine) s0 es → r.current = current

theorem settled_run {s0 : Server π δ (BoundTree κ)} {r0 : ParseResult (BoundTree κ)} {root : Option κ} {n : Nat}
    (h0 : s0.session.result = some r0) (hr0 : r0.Statement root n) {es : List (Event δ)}
    (hrounds : Rounds e.toEngine s0 es) (hnone : NoneLeft e.toEngine s0 es) :
    (run e.toEngine s0 es).session.control = .closed ∨
      ∃ r, (run e.toEngine s0 es).session.result = some r ∧ Settled e.toEngine s0 root n r0.current es r := by
  induction es using List.reverseRecOn with
  | nil => exact .inr ⟨r0, h0, hr0, fun h => absurd h not_occurs_nil, fun _ => rfl⟩
  | append_singleton es x ih =>
    obtain ⟨hrounds, hparses, hends⟩ := atEach_append.mp hrounds
    obtain ⟨hnone, hx⟩ := atEach_append.mp hnone
    rw [run_append]
    obtain hclosed | ⟨r, hr, hstatement, hmark, hcurrent⟩ := ih hrounds hnone
    · exact .inl (step_closed hclosed x)
    cases step_affects e hparses hr hstatement with
    | closed h => exact .inl h
    | @bound length block hb r' ht hr' hmark' hcurrent' =>
      have hc := hcurrent (hx _ _ hb)
      refine .inr ⟨_, ht, hr', fun _ => hmark'.trans hc, fun hsince => ?_⟩
      rw [since_append, not_or] at hsince
      have htakes : SessionInfo.takes r block (length - 4) = 0 := by
        by_contra hne
        exact hsince.1 ⟨length, block, r, hb, hr, hne⟩
      rw [hcurrent', htakes, hc]
      rfl
    | restored h ht =>
      have hm := hmark (hends ⟨r, h⟩)
      exact .inr ⟨_, ht, ⟨hstatement.root, hstatement.params, hstatement.nodes⟩, fun _ => hm, fun _ => hm⟩
    | kept hb hends' ht =>
      refine .inr ⟨r, ht, hstatement, fun hoccurs => ?_, fun hsince => hcurrent fun hs => hsince ?_⟩
      · obtain hbefore | ⟨length, block, hbx⟩ := occurs_append.mp hoccurs
        · exact hmark hbefore
        · exact absurd hbx (hb length block)
      · refine since_append.mpr (.inr ⟨hs, ?_⟩)
        rintro ⟨r', hr'⟩
        cases hr.symm.trans hr'.2.2.1
        exact hends' hr'

theorem held_run {s0 : Server π δ (BoundTree κ)} {r0 : ParseResult (BoundTree κ)} {root : Option κ} {n : Nat}
    (h0 : s0.session.result = some r0) (hr0 : r0.Statement root n) {es : List (Event δ)}
    (hrounds : Rounds e.toEngine s0 es) (hfirst : EachAsFirst e.toEngine s0 es) :
    (run e.toEngine s0 es).session.control = .closed ∨
      ∃ r, (run e.toEngine s0 es).session.result = some r ∧ r.Statement root n ∧
        (Since (step e.toEngine) TakesRoom (Ends e.toEngine) s0 es → r0.current < r.current) := by
  induction es using List.reverseRecOn with
  | nil => exact .inr ⟨r0, h0, hr0, fun h => absurd h not_since_nil⟩
  | append_singleton es x ih =>
    obtain ⟨hrounds, hparses, -⟩ := atEach_append.mp hrounds
    obtain ⟨hfirst, hx⟩ := atEach_append.mp hfirst
    rw [run_append]
    obtain hclosed | ⟨r, hr, hstatement, hcurrent⟩ := ih hrounds hfirst
    · exact .inl (step_closed hclosed x)
    cases step_affects e hparses hr hstatement with
    | closed h => exact .inl h
    | bound hb ht hr' hmark' hcurrent' =>
      obtain ⟨r0', r', h0', hr'', hroom⟩ := (hx _ _ hb).room
      cases h0.symm.trans h0'
      cases hr.symm.trans hr''
      refine .inr ⟨_, ht, hr', fun hsince => ?_⟩
      rw [since_append] at hsince
      rw [hcurrent']
      obtain ⟨length, block, r', hb', hr', htakes⟩ | ⟨hs, -⟩ := hsince
      · cases hr.symm.trans hr'
        obtain ⟨⟨t, hreceived, -⟩, -⟩ := hb
        obtain ⟨⟨t', hreceived', -⟩, -⟩ := hb'
        cases hreceived.symm.trans hreceived'
        omega
      · exact Nat.lt_add_right _ (hcurrent hs)
    | restored h ht =>
      refine .inr ⟨_, ht, ⟨hstatement.root, hstatement.params, hstatement.nodes⟩, fun hsince => ?_⟩
      obtain ⟨length, block, r', ⟨⟨t, hreceived, -⟩, -⟩, -⟩ | ⟨-, hnot⟩ := since_append.mp hsince
      · obtain ⟨raised, rfl⟩ := h.1
        cases hreceived
      · exact absurd ⟨r, h⟩ hnot
    | kept hb hends' ht =>
      refine .inr ⟨r, ht, hstatement, fun hsince => ?_⟩
      obtain ⟨length, block, r', hbx, -⟩ | ⟨hs, -⟩ := since_append.mp hsince
      · exact absurd hbx (hb length block)
      · exact hcurrent hs

/-- Which rounds of a statement that has just been parsed are all like the first. -/
theorem eachAsFirst_iff (e : ParamEngine π δ κ) (s : Server π δ (BoundTree κ)) (x : Event δ) (hparse : Parses e.toEngine s x)
    (es : List (Event δ)) (hrounds : Rounds e.toEngine (s.step e.toEngine x) es) :
    EachAsFirst e.toEngine (s.step e.toEngine x) es ↔ NoneLeft e.toEngine (s.step e.toEngine x) es := by
  obtain ⟨r0, root, h0, hr0⟩ := hparse.statement
  constructor
  · intro h before y later hes length block hb hsince
    rw [hes] at h hrounds
    obtain hclosed | ⟨r, hr, -, hcurrent⟩ := held_run h0 hr0 hrounds.left h.left
    · exact not_binds_of_closed hclosed y length block hb
    · obtain ⟨r0', r', h0', hr', hroom⟩ := (h before y later rfl length block hb).room
      cases h0.symm.trans h0'
      cases hr.symm.trans hr'
      exact absurd (hcurrent hsince) (by omega)
  · intro h before y later hes length block hb
    have hnone := h before y later hes length block hb
    rw [hes] at h hrounds
    obtain hclosed | ⟨r, hr, hsettled⟩ := settled_run h0 hr0 hrounds.left h.left
    · exact absurd hb (not_binds_of_closed hclosed y length block)
    · exact ⟨⟨r0, r, h0, hr, hsettled.current hnone⟩, fun block len =>
        SessionInfo.bindOutcome_eq hr h0 hsettled.statement hr0 (hsettled.current hnone) block len⟩

theorem binds_of_reading {s : Server π δ τ} (hc : s.session.control = .reading) (length : Nat)
    (hlength : ¬ (length < 4 ∨ blockSize < length - 4)) (block : Bytes) :
    s.Binds (.message (char "B") length block) length block :=
  ⟨⟨_, received_reading hc (by decide) length block, rfl⟩, hlength⟩

end Server

/-- A server whose statements have one parameter and all fail when they begin. -/
def failingEngine : ParamEngine Unit Unit Unit where
  toExecutionPlan := { emptyExecutionPlan with «begin» := fun _ _ => throw (.thrown (.execution "failed")) }
  parseSql _ := { tree := some (), params := 1, allocs := [], error := none }
  buildPlan _ := .ok ()
  emptyPlan := ()
  conv := decimalConversions
  fmt := ignoringEngine.fmt

def startedServer : Server Unit Unit (BoundTree Unit) :=
  Server.run failingEngine.toEngine ⟨SessionInfo.start { index := 0 }, ()⟩ startupEvents

def parseEvent : Event Unit := .message (char "P") 9 [0, 120, 0, 0, 1]

def bindBlock : Bytes := [0, 0, 0, 1, 0, 0, 0, 1, 0, 0, 0, 1, 97]

def failedRound : List (Event Unit) :=
  [.message (char "B") 17 bindBlock, .message (char "E") 9 [0, 0, 0, 0, 0], .tick none, .written]

theorem parseEvent_parses : Server.Parses failingEngine.toEngine startedServer parseEvent :=
  ⟨_, 9, _, Server.received_reading (by decide +kernel) (by decide) _ _, rfl, by decide +kernel⟩

theorem failedRound_rounds :
    Server.Rounds failingEngine.toEngine (startedServer.step failingEngine.toEngine parseEvent)
      (failedRound ++ [.message (char "B") 17 bindBlock]) := by
  have hends : ∀ {s : Server Unit Unit (BoundTree Unit)} {x : Event Unit} {p : Prop}, s.session.control ≠ .finishing →
      Server.Ends failingEngine.toEngine s x → p := fun hc ⟨r, h⟩ => absurd h.2.1 hc
  rw [failedRound, Server.Rounds]
  simp only [List.cons_append, List.nil_append, atEach_cons]
  exact ⟨⟨by decide +kernel, hends (by decide +kernel)⟩, ⟨by decide +kernel, hends (by decide +kernel)⟩,
    ⟨by decide +kernel, hends (by decide +kernel)⟩, ⟨by decide +kernel, hends (by decide +kernel)⟩,
    ⟨by decide +kernel, hends (by decide +kernel)⟩, atEach_nil⟩

theorem eachAsFirst_iff_failedRound :
    Server.EachAsFirst failingEngine.toEngine (startedServer.step failingEngine.toEngine parseEvent)
        (failedRound ++ [.message (char "B") 17 bindBlock]) ↔
      Server.NoneLeft failingEngine.toEngine (startedServer.step failingEngine.toEngine parseEvent)
        (failedRound ++ [.message (char "B") 17 bindBlock]) :=
  Server.eachAsFirst_iff failingEngine startedServer parseEvent parseEvent_parses _ failedRound_rounds

/-- After a round that failed there is a byte less for the next one. -/
theorem failedRound_not_asFirst :
    Server.Parses failingEngine.toEngine startedServer parseEvent ∧
      Server.Rounds failingEngine.toEngine (startedServer.step failingEngine.toEngine parseEvent)
        (failedRound ++ [.message (char "B") 17 bindBlock]) ∧
        ¬ Server.EachAsFirst failingEngine.toEngine (startedServer.step failingEngine.toEngine parseEvent)
          (failedRound ++ [.message (char "B") 17 bindBlock]) := by
  refine ⟨parseEvent_parses, failedRound_rounds, fun h => ?_⟩
  have hbinds := Server.binds_of_reading (s := Server.run failingEngine.toEngine
    (startedServer.step failingEngine.toEngine parseEvent) failedRound) (by decide +kernel) 17 (by decide) bindBlock
  obtain ⟨r0, r, h0, hr, hroom⟩ := (h failedRound _ [] rfl 17 bindBlock hbinds).room
  have hfree : ((Server.run failingEngine.toEngine (startedServer.step failingEngine.toEngine parseEvent)
      failedRound).session.result.map ParseResult.current) ≠
        (startedServer.step failingEngine.toEngine parseEvent).session.result.map ParseResult.current := by decide +kernel
  rw [h0, hr] at hfree
  exact hfree (by simp [hroom])

end LevelPgServer
