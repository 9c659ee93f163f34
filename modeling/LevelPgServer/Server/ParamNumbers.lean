import LevelPgServer.Server.BindValues

namespace LevelPgServer

open PostgresProtocol

variable {π δ κ : Type}

/-- What the parser leaves of a statement: of its parameters the number that stands behind the `$` and the type of the
column that it is used with, in the order of the text. -/
structure NumberedOutcome (κ : Type) where
  tree : Option κ
  params : List (Nat × DBDataType)
  allocs : List Nat
  error : Option Exn

abbrev NumberedTree (κ : Type) := BoundTree (κ × List (Nat × DBDataType))

/-- The constants of the statement as the columns read them from the nodes of its parameters. -/
def NumberedTree.constants (conv : Conversions) (t : NumberedTree κ) : List (Fallible ExecutionResult) :=
  List.zipWith (fun p n => DBDataTypeHandler.fromNode conv p.2
    (n.toNode (bytes ("$" ++ toString p.1)))) t.root.2 t.params

def literalConstants (conv : Conversions) (params : List (Nat × DBDataType)) (lits : List ParseNode) :
    List (Fallible ExecutionResult) :=
  List.zipWith (fun p lit => DBDataTypeHandler.fromNode conv p.2 lit) params lits

/-- An engine whose parser collects the parameters as the lexer does, a node for each and the number only in its text,
and whose plans take the constants of a statement from `fromNode` of the columns. -/
structure NumberedEngine (π δ κ : Type) extends ExecutionPlan π δ where
  parseSql : Bytes → NumberedOutcome κ
  buildPlan : κ → List (Fallible ExecutionResult) → Fallible π
  emptyPlan : π
  conv : Conversions
  fmt : Formats

def NumberedEngine.toParamEngine (e : NumberedEngine π δ κ) : ParamEngine π δ (κ × List (Nat × DBDataType)) where
  toExecutionPlan := e.toExecutionPlan
  parseSql sql :=
    let o := e.parseSql sql
    { tree := o.tree.map fun root => (root, o.params), params := o.params.length, allocs := o.allocs, error := o.error }
  buildPlan t := e.buildPlan t.root.1 (NumberedTree.constants e.conv t)
  emptyPlan := e.emptyPlan
  conv := e.conv
  fmt := e.fmt

/-- The literal is written for the value with the number of the parameter, and the column accepts it. -/
def WrittenFor (conv : Conversions) (values : List (Bool × Bytes)) (p : Nat × DBDataType) (lit : ParseNode) : Prop :=
  1 ≤ p.1 ∧ ∃ v, values[p.1 - 1]? = some v ∧ Writes conv p.2 v lit ∧
    ∃ r, DBDataTypeHandler.fromNode conv p.2 lit = .ok r

/-- The column takes `v` for the value with the number of the parameter. -/
def TakenForNumber (conv : Conversions) (values : List (Bool × Bytes)) (p : Nat × DBDataType)
    (v : Bool × Bytes) : Prop :=
  values[p.1 - 1]?.map (standsFor conv p.2) = some (standsFor conv p.2 (takenAs p.2 v))

theorem constant_eq_iff {conv : Conversions} {values : List (Bool × Bytes)} {p : Nat × DBDataType} {lit : ParseNode}
    (h : WrittenFor conv values p lit) (v : Bool × Bytes) (sExpr : Bytes) :
    DBDataTypeHandler.fromNode conv p.2 ((ParamNode.ofBind v).toNode sExpr) = DBDataTypeHandler.fromNode conv p.2 lit ↔
      TakenForNumber conv values p v := by
  obtain ⟨-, w, hw, hwrites, r, hr⟩ := h
  rw [hr, DBDataTypeHandler.fromNode_bind_iff hr, TakenForNumber, hw, Option.map_some, hwrites.standsFor_eq hr,
    Option.some_inj,
    eq_comm]

theorem constants_eq_iff (root : κ) {conv : Conversions} {values : List (Bool × Bytes)}
    {params : List (Nat × DBDataType)}
    {lits : List ParseNode} (h : List.Forall₂ (WrittenFor conv values) params lits) {vs : List (Bool × Bytes)}
    (hlen : params.length = vs.length) :
    NumberedTree.constants conv ⟨(root, params), vs.map ParamNode.ofBind⟩ = literalConstants conv params lits ↔
      List.Forall₂ (TakenForNumber conv values) params vs := by
  rw [NumberedTree.constants, literalConstants]
  dsimp only
  induction h generalizing vs with
  | nil =>
    obtain rfl := List.length_eq_zero_iff.mp hlen.symm
    exact iff_of_true rfl .nil
  | @cons p lit params lits hp _ ih =>
    obtain _ | ⟨v, vs⟩ := vs
    · cases hlen
    · rw [List.map_cons, List.zipWith_cons_cons, List.zipWith_cons_cons, List.cons.injEq, constant_eq_iff hp,
        ih (Nat.succ.inj hlen), List.forall₂_cons]

theorem modify_append_cons {α : Type} (f : α → α) (pre : List α) (x : α) (xs : List α) :
    (pre ++ x :: xs).modify pre.length f = pre ++ f x :: xs := by
  induction pre with
  | nil => rfl
  | cons y pre ih => simpa using ih

namespace ParseResult

variable {e : ParamEngine π δ κ}

theorem bindAll_cons {engine : Engine π δ κ} {i : Nat} {binary : Bool} {value : Bytes} {ps : List (Bool × Bytes)}
    {r : ParseResult κ} (h : r.current + value.length ≤ blockSize) :
    bindAll engine i ((binary, value) :: ps) r =
      bindAll engine (i + 1) ps
        { r with
          tree := r.tree.map fun t => engine.setString i value (engine.setBindParamMode i binary t)
          strings := r.strings ++ [⟨r.current, value.length⟩]
          current := r.current + value.length } := by
  have halloc : ∀ tree : Option κ, alloc value.length { r with tree := tree } =
      .ok ⟨r.current, value.length⟩ { r with tree := tree, current := r.current + value.length } :=
    fun tree => (alloc_run _ _).trans (if_neg (Nat.not_lt.mpr h))
  simp only [bindAll, Bind.bind, EStateM.bind, StateRules.modify_run, halloc,
    Option.map_map]
  rfl

theorem bindAll_fits (e : ParamEngine π δ κ) (pre : List ParamNode) {nodes : List ParamNode}
    {ps : List (Bool × Bytes)} (hlen : nodes.length = ps.length) {root : κ}
    {r : ParseResult (BoundTree κ)} (ht : r.tree = some ⟨root, pre ++ nodes⟩)
    (hfits : r.current + (ps.map fun p => p.2.length).sum ≤ blockSize) :
    ∃ r', bindAll e.toEngine pre.length ps r = .ok () r' ∧ r'.tree = some ⟨root, pre ++ ps.map ParamNode.ofBind⟩ := by
  induction ps generalizing pre nodes r with
  | nil =>
    obtain rfl := List.length_eq_zero_iff.mp hlen
    exact ⟨r, rfl, ht⟩
  | cons p ps ih =>
    obtain ⟨binary, value⟩ := p
    obtain _ | ⟨x, nodes⟩ := nodes
    · cases hlen
    rw [List.map_cons, List.sum_cons, ← Nat.add_assoc] at hfits
    rw [bindAll_cons (le_trans (Nat.le_add_right _ _) hfits)]
    have hnext := ih (pre ++ [ParamNode.ofBind (binary, value)]) (by simpa using hlen)
      (r := { r with
        tree := r.tree.map fun t => e.toEngine.setString pre.length value
          (e.toEngine.setBindParamMode pre.length binary t)
        strings := r.strings ++ [⟨r.current, value.length⟩]
        current := r.current + value.length }) ?_ hfits
    · simpa using hnext
    · rw [ht]
      simp only [Option.map_some, ParamEngine.toEngine, BoundTree.setString, BoundTree.setBindParamMode,
        modify_append_cons]
      simp [ParamNode.ofBind]

end ParseResult

namespace SessionInfo

variable {e : NumberedEngine π δ κ}

def parsedResult (o : NumberedOutcome κ) (sql : Bytes) (mark : Nat) : ParseResult (NumberedTree κ) where
  tree := o.tree.map fun root => ⟨(root, o.params), List.replicate o.params.length {}⟩
  params := o.params.length
  statement := ⟨0, sql.length + 1⟩ :: Region.consecutive (sql.length + 1) o.allocs
  current := sql.length + 1 + o.allocs.sum
  mark := mark

theorem parse_run {sql : Bytes} (hsql : sql.length + 1 ≤ blockSize) (herror : (e.parseSql sql).error = none)
    (r : ParseResult (NumberedTree κ)) :
    ParseResult.parse e.toParamEngine.toEngine sql r = .ok () (parsedResult (e.parseSql sql) sql r.mark) := by
  have halloc := ParseResult.alloc_run (sql.length + 1) ({ mark := r.mark } : ParseResult (NumberedTree κ))
  rw [if_neg (by simpa using hsql)] at halloc
  simp only [ParseResult.parse, Bind.bind, EStateM.bind, StateRules.modify_run, halloc]
  have hnone : (e.toParamEngine.toEngine.parseSql sql).error = none := herror
  rw [hnone]
  simp only [pure, EStateM.pure, parsedResult, ParamEngine.toEngine, NumberedEngine.toParamEngine, Option.map_map,
    Nat.zero_add]
  rfl

theorem handleParse_run {s : SessionInfo π (NumberedTree κ)} {r : ParseResult (NumberedTree κ)}
    (hs : s.result = some r) {block : Bytes} {len : Nat} {sql : Bytes} {n : Nat}
    (hparse : readParseInfo block len = .ok (sql, n)) (hbypassed : bypassed sql = false)
    (hsql : sql.length + 1 ≤ blockSize)
    (herror : (e.parseSql sql).error = none) :
    (n ≠ (e.parseSql sql).params.length ∧ ∃ f s', handleParse e.toParamEngine.toEngine block len s = .error f s') ∨
      (n = (e.parseSql sql).params.length ∧ ∃ s', handleParse e.toParamEngine.toEngine block len s = .ok () s' ∧
        s'.result = some (parsedResult (e.parseSql sql) sql r.mark)) := by
  have hrun : handleParse e.toParamEngine.toEngine block len s =
      if n ≠ (e.parseSql sql).params.length then
        .error (.thrown (parseError ("Parameter number unmatch!, expect " ++ toString n ++ ", actual " ++
          toString (e.parseSql sql).params.length)))
          { s with result := some (parsedResult (e.parseSql sql) sql r.mark) }
      else
        .ok () { s with
          result := some (parsedResult (e.parseSql sql) sql r.mark)
          parsed := true
          binded := false
          control := .reading } := by
    rw [handleParse, hparse, liftFallible_bind]
    dsimp only
    rw [parse, bind_assoc, onResult_modify_bind hs, hbypassed]
    rw [if_neg (by simp), onResult_bind rfl, parse_run hsql herror]
    dsimp only
    rw [onResult_get_bind rfl]
    rw [show (parsedResult (e.parseSql sql) sql r.mark).params = (e.parseSql sql).params.length from rfl]
    split
    · rfl
    · rfl
  by_cases hn : n ≠ (e.parseSql sql).params.length
  · rw [if_pos hn] at hrun
    exact .inl ⟨hn, _, _, hrun⟩
  · rw [if_neg hn] at hrun
    exact .inr ⟨not_not.mp hn, _, hrun, rfl⟩

def boundTree {τ : Type} (engine : Engine π δ τ) (block : Bytes) (len : Nat) (s : SessionInfo π τ) : Option τ :=
  match handleBind engine block len s with
  | .ok _ s' | .error _ s' => s'.result.bind fun r => r.tree

/-- The Parse and the Bind of a round come to the statement with these constants and to its plan, or to the error of
planning it. -/
def Prepares (e : NumberedEngine π δ κ) (parse bind : Bytes × Nat) (root : κ)
    (constants : List (Fallible ExecutionResult))
    (s : SessionInfo π (NumberedTree κ)) : Prop :=
  ∃ s', handleParse e.toParamEngine.toEngine parse.1 parse.2 s = .ok () s' ∧
    (s'.boundTree e.toParamEngine.toEngine bind.1 bind.2).map (fun t => (t.root.1, NumberedTree.constants e.conv t)) =
      some (root, constants) ∧
    s'.bindOutcome e.toParamEngine.toEngine bind.1 bind.2 = (e.buildPlan root constants).map some

theorem bind_run {s : SessionInfo π (NumberedTree κ)} {o : NumberedOutcome κ} {sql : Bytes} {mark : Nat}
    (hs : s.result = some (parsedResult o sql mark)) {root : κ} (hroot : o.tree = some root) {block : Bytes} {len : Nat}
    {values : List (Bool × Bytes)} (hbind : readBindParam block len o.params.length = .ok values)
    (hfits : sql.length + 1 + o.allocs.sum + (values.map fun p => p.2.length).sum ≤ blockSize) :
    s.boundTree e.toParamEngine.toEngine block len = some ⟨(root, o.params), values.map ParamNode.ofBind⟩ ∧
      s.bindOutcome e.toParamEngine.toEngine block len =
        (e.buildPlan root (NumberedTree.constants e.conv ⟨(root, o.params),
          values.map ParamNode.ofBind⟩)).map some := by
  have hlen : (List.replicate o.params.length ({} : ParamNode)).length = values.length := by
    rw [List.length_replicate, length_readBindParam hbind]
  have htree : (parsedResult o sql mark).setMark.tree =
    some ⟨(root, o.params), [] ++ List.replicate o.params.length ({} : ParamNode)⟩ := by
    simp [ParseResult.setMark, parsedResult, hroot]
  obtain ⟨r', hrun, hr'⟩ := ParseResult.bindAll_fits e.toParamEngine [] hlen htree hfits
  rw [List.nil_append] at hr'
  rw [boundTree, bindOutcome, handleBind_run _ hs,
    show (parsedResult o sql mark).params = o.params.length from rfl, hbind]
  dsimp only
  rw [show (0 : Nat) = ([] : List ParamNode).length from rfl, hrun]
  dsimp only
  rw [hr']
  dsimp only
  rw [show e.toParamEngine.toEngine.buildPlan ⟨(root, o.params), values.map ParamNode.ofBind⟩ =
    e.buildPlan root (NumberedTree.constants e.conv ⟨(root, o.params), values.map ParamNode.ofBind⟩) from rfl]
  cases e.buildPlan root (NumberedTree.constants e.conv ⟨(root, o.params), values.map ParamNode.ofBind⟩) with
  | ok p => exact ⟨hr', rfl⟩
  | error f => exact ⟨hr', rfl⟩

end SessionInfo

def paramsEngine (params : List (Nat × DBDataType)) : NumberedEngine Unit Unit Unit where
  toExecutionPlan := emptyExecutionPlan
  parseSql _ := { tree := some (), params := params, allocs := [], error := none }
  buildPlan _ _ := .ok ()
  emptyPlan := ()
  conv := digitConversions
  fmt := ignoringEngine.fmt

def parseTwo : Bytes × Nat := ([0, 120, 0, 0, 2], 5)

def freshSession : SessionInfo Unit (NumberedTree Unit) := SessionInfo.start { index := 0 }

def bindFive : Bytes × Nat := ([0, 0, 0, 2, 0, 1, 0, 0, 0, 2, 0, 0, 0, 4, 0, 0, 0, 5, 0, 0, 0, 1, 98], 23)

def fiveValues : List (Bool × Bytes) := [(true, [0, 0, 0, 5]), (false, [98])]

/-- The bytes of -1 in an INT64 column. -/
example : standsFor digitConversions .int64 (true, [255, 255, 255, 255]) = some (.int (-1)) ∧
    standsFor digitConversions .int64 (takenAs .int64 (true, [255, 255, 255, 255])) =
      some (.int 4294967295) := by decide

def bindTwo (a b : UInt8) : Bytes × Nat :=
  ([0, 0, 0, 2, 0, 0, 0, 0, 0, 2, 0, 0, 0, 1, a, 0, 0, 0, 1, b], 20)

def twoValues : List (Bool × Bytes) := [(false, [97]), (false, [98])]

end LevelPgServer
