import LevelPgServer.Common.SqlParser

/-! What the actions of the scanner and of the grammar do to the state, and that the parser stops. -/

namespace LevelPgServer.SqlParser

open ParseNode

/-- The text that is left, the tree and the error are as they were. -/
structure Quiet (s s' : ParseState) : Prop where
  input : s'.input = s.input
  result : s'.m_pResult = s.m_pResult
  error : s'.m_sError = s.m_sError

/-- An error has been reported, with the text where it was. -/
structure Reported (s s' : ParseState) : Prop where
  input : s'.input = s.input
  result : s'.m_pResult = .null
  error : s'.m_sError ≠ ""

def bufferFull : Fault := .thrown (parseError "Not enough parse buffer")

theorem Quiet.refl (s : ParseState) : Quiet s s := ⟨rfl, rfl, rfl⟩

theorem Quiet.trans {s s' s'' : ParseState} (h : Quiet s s') (h' : Quiet s' s'') : Quiet s s'' :=
  ⟨h'.input.trans h.input, h'.result.trans h.result, h'.error.trans h.error⟩

theorem reported_of_ne (loc : Location) {msg : String} (hmsg : msg ≠ "") (s : ParseState) :
    Reported s (reported loc msg s) := ⟨rfl, rfl, hmsg⟩

theorem append_ne {a : String} (h : a ≠ "") (b : String) : a ++ b ≠ "" := by
  intro heq
  exact h (by simpa using (String.append_eq_empty_iff.mp heq).1)

/-- A computation that only takes memory and changes nodes. -/
def Makes {α : Type} (m : ParseM α) : Prop :=
  ∀ s, (∃ a s', m s = .ok a s' ∧ Quiet s s') ∨ ∃ s', m s = .error bufferFull s' ∧ Quiet s s'

namespace Makes

variable {α β : Type}

theorem of_pure (a : α) : Makes (pure a : ParseM α) := fun s => .inl ⟨a, s, rfl, .refl s⟩

theorem of_get : Makes (get : ParseM ParseState) := fun s => .inl ⟨s, s, rfl, .refl s⟩

theorem of_modify {f : ParseState → ParseState} (hf : ∀ s, Quiet s (f s)) : Makes (modify f : ParseM PUnit) := fun s => .inl ⟨(), f s, rfl, hf s⟩

theorem alloc (size : Nat) : Makes (SqlParser.alloc size) := by
  intro s
  unfold SqlParser.alloc
  split
  case isTrue => exact .inr ⟨s, rfl, .refl s⟩
  case isFalse => exact .inl ⟨(), _, rfl, ⟨rfl, rfl, rfl⟩⟩

theorem bind {m : ParseM α} {f : α → ParseM β} (hm : Makes m) (hf : ∀ a, Makes (f a)) : Makes (m >>= f) := by
  intro s
  obtain ⟨a, s', hrun, hquiet⟩ | ⟨s', hrun, hquiet⟩ := hm s
  · have hbind : (m >>= f) s = f a s' := by simp only [Bind.bind, EStateM.bind, hrun]
    rw [hbind]
    obtain ⟨b, s'', hrun', hquiet'⟩ | ⟨s'', hrun', hquiet'⟩ := hf a s'
    · exact .inl ⟨b, s'', hrun', hquiet.trans hquiet'⟩
    · exact .inr ⟨s'', hrun', hquiet.trans hquiet'⟩
  · exact .inr ⟨s', by simp only [Bind.bind, EStateM.bind, hrun], hquiet⟩

theorem newParseNode (type : NodeType) (op : Operation) (loc : Location) (children : List ParseNode) :
    Makes (SqlParser.newParseNode type op loc children) :=
  (alloc _).bind fun _ => of_get.bind fun _ => of_pure _

theorem newSimpleNode (type : NodeType) (loc : Location) (op : Operation) :
    Makes (SqlParser.newSimpleNode type loc op) := newParseNode type op loc []

theorem newExprNode (op : Operation) (loc : Location) (children : List ParseNode) :
    Makes (SqlParser.newExprNode op loc children) := newParseNode .op op loc children

theorem newInfoNode (op : Operation) (loc : Location) : Makes (SqlParser.newInfoNode op loc) :=
  newParseNode .info op loc []

theorem newFuncNode (sName : Bytes) (loc : Location) (children : List ParseNode) :
    Makes (SqlParser.newFuncNode sName loc children) := (newParseNode _ _ _ _).bind fun _ => of_pure _

theorem newParentNode (sName : String) (loc : Location) (children : List ParseNode) :
    Makes (SqlParser.newParentNode sName loc children) := (newParseNode _ _ _ _).bind fun _ => of_pure _

theorem newPlanNode (sName : String) (op : Operation) (loc : Location) (children : List ParseNode) :
    Makes (SqlParser.newPlanNode sName op loc children) := (newParseNode _ _ _ _).bind fun _ => of_pure _

theorem newListNode (sName : String) (loc : Location) (children : List ParseNode) :
    Makes (SqlParser.newListNode sName loc children) := (newParseNode _ _ _ _).bind fun _ => of_pure _

end Makes

inductive Lexes (a : LexAction) (s : ParseState) : EStateM.Result Fault ParseState (Option Token) → Prop
  | token {t : Token} {s' : ParseState} (h : Quiet s s') : Lexes a s (.ok (some t) s')
  | skip {s' : ParseState} (h : Quiet s s') : Lexes a s (.ok none s')
  | full {s' : ParseState} (h : Quiet s s') : Lexes a s (.error bufferFull s')
  | error {s' : ParseState} (h : Reported s s') : Lexes a s (.ok (some .ERROR) s')
  | unterminated {s' : ParseState} (ha : a = .unterminated) (h : Reported s s') : Lexes a s (.ok none s')

theorem Lexes.of_makes {a : LexAction} {m : ParseM (Option Token)} (hm : Makes m) (s : ParseState) :
    Lexes a s (m s) := by
  obtain ⟨t, s', hrun, hquiet⟩ | ⟨s', hrun, hquiet⟩ := hm s
  · rw [hrun]
    cases t with
    | none => exact .skip hquiet
    | some t => exact .token hquiet
  · rw [hrun]
    exact .full hquiet

theorem lexAct_lexes (a : LexAction) (yytext : Bytes) (s : ParseState) : Lexes a s (lexAct a yytext s) := by
  cases a with
  | keyword t => exact .token (.refl s)
  | null => exact .error (reported_of_ne _ (by decide) s)
  | unterminated => exact .unterminated rfl (reported_of_ne _ (append_ne (by decide) _) s)
  | comment => exact .skip (.refl s)
  | character => exact .token (.refl s)
  | mystery => exact .error (reported_of_ne _ (append_ne (by decide) _) s)
  | bool | intnum | approxnum | dateValue | name | param =>
    refine .of_makes (.bind .of_get fun s => .bind (.newSimpleNode _ _ _) fun pNode => ?_) s
    exact .bind (.of_modify fun _ => ⟨rfl, rfl, rfl⟩) fun _ => .of_pure _
  | string | binary =>
    refine .of_makes (.bind .of_get fun s => .bind (.newSimpleNode _ _ _) fun pNode => ?_) s
    refine .bind (.of_modify fun _ => ⟨rfl, rfl, rfl⟩) fun _ => .bind (.alloc _) fun _ => ?_
    exact .bind (.of_modify fun _ => ⟨rfl, rfl, rfl⟩) fun _ => .of_pure _

theorem rules_advance : lexRules.all (fun r => Nat.ble (r.trailing + 1) r.pattern.minLength) = true := by
  decide +kernel

theorem scan_isSome (c : UInt8) (input : Bytes) : (ScanRule.scan lexRules (c :: input)).isSome := by
  refine ScanRule.isSome_foldl_better (.inr ?_)
  have hone : ∀ {p : UInt8 → Bool}, p c = true → ((Regex.one p).longest (c :: input)).isSome := by
    intro p hp
    have hmatch : Regex.Matches (.one p) ((c :: input).take 1) := .one hp
    by_contra hnone
    exact Regex.longest_none (Option.not_isSome_iff_eq_none.mp hnone) 1 hmatch
  by_cases hc : c = 10
  · refine ⟨rule (.one fun c => c == 32 || c == 9 || c == 13 || c == 10) .comment, ?_, hone (by simp [hc])⟩
    simp [lexRules]
  · exact ⟨rule dot .mystery, by simp [lexRules], hone (by simpa using hc)⟩

theorem scan_pos {input : Bytes} {n : Nat} {r : ScanRule UInt8 LexAction}
    (h : ScanRule.scan lexRules input = some (n, r)) : r.trailing < n ∧ n ≤ input.length := by
  obtain ⟨hmem, hlong⟩ := ScanRule.scan_some h
  have hmin := Nat.le_of_ble_eq_true (List.all_eq_true.mp rules_advance r hmem)
  have hle := Regex.minLength_le_longest hlong
  obtain ⟨hlen, -, -⟩ := Regex.longest_some hlong
  exact ⟨by omega, hlen⟩

theorem scan_nil {n : Nat} {r : ScanRule UInt8 LexAction} (h : ScanRule.scan lexRules [] = some (n, r)) : False := by
  obtain ⟨hpos, hlen⟩ := scan_pos h
  simp only [List.length_nil] at hlen
  omega

theorem yylex_cases (s : ParseState) :
    s.input = [] ∧ yylex s = .ok (some (.chr 59)) s ∨
      ∃ n r, ScanRule.scan lexRules s.input = some (n, r) ∧ 0 < n - r.trailing ∧ n - r.trailing ≤ s.input.length ∧
        yylex s = lexAct r.action (s.input.take (n - r.trailing)) (advance (n - r.trailing) s) := by
  cases hinput : s.input with
  | nil =>
    left
    refine ⟨rfl, ?_⟩
    simp only [yylex, Bind.bind, EStateM.bind, StateRules.get_run, hinput, if_true]
    rfl
  | cons c cs =>
    right
    obtain ⟨⟨n, r⟩, hscan⟩ := Option.isSome_iff_exists.mp (scan_isSome c cs)
    obtain ⟨hpos, hlen⟩ := scan_pos hscan
    refine ⟨n, r, hscan, by omega, by omega, ?_⟩
    simp only [yylex, Bind.bind, EStateM.bind, StateRules.get_run, hinput, hscan,
      reduceCtorEq, if_false, StateRules.set_run]

inductive Reduces (r : Nat) (rhs : Rhs) (s : ParseState) : EStateM.Result Fault ParseState Verdict → Prop
  | value {v : ParseNode} {s' : ParseState} (h : Quiet s s') : Reduces r rhs s (.ok (.value v) s')
  | full {s' : ParseState} (h : Quiet s s') : Reduces r rhs s (.error bufferFull s')
  | accept {s' : ParseState} (hr : r = 2 ∨ r = 3) (herror : s'.m_sError = s.m_sError) :
      Reduces r rhs s (.ok .accept s')
  | raised {s' : ParseState} (h : Quiet s s') : Reduces r rhs s (.ok .error s')
  | error {s' : ParseState} (h : Reported s s') : Reduces r rhs s (.ok .error s')
  | minus {v : ParseNode} {s' : ParseState} (hr : r = 27) (hint : (rhs.value 2).type ≠ .int)
      (hfloat : (rhs.value 2).type ≠ .float) (h : Reported s s') : Reduces r rhs s (.ok (.value v) s')
  | crash {s' : ParseState} (hr : r = 27) (hnull : rhs.value 2 = .null) : Reduces r rhs s (.error .undefined s')

variable {r : Nat} {rhs : Rhs} {s : ParseState}

theorem Reduces.of_value (v : ParseNode) : Reduces r rhs s ((pure (.value v) : ParseM Verdict) s) :=
  .value (.refl s)

theorem Reduces.of_assign {m : ParseM ParseNode} (hm : Makes m) : Reduces r rhs s (assign m s) := by
  obtain ⟨p, s', hrun, hquiet⟩ | ⟨s', hrun, hquiet⟩ := hm s
  · have : assign m s = .ok (.value p) s' := by simp only [assign, Bind.bind, EStateM.bind, hrun]; rfl
    rw [this]
    exact .value hquiet
  · have : assign m s = .error bufferFull s' := by simp only [assign, Bind.bind, EStateM.bind, hrun]
    rw [this]
    exact .full hquiet

theorem Reduces.of_number {type : NodeType} {loc : Location} :
    Reduces r rhs s ((do
      let pNode ← newSimpleNode type loc .none
      return .value (pNode.setString pNode.sExpr) : ParseM Verdict) s) := by
  have hmakes : Makes (do
      let pNode ← newSimpleNode type loc .none
      return pNode.setString pNode.sExpr) := .bind (.newSimpleNode _ _ _) fun _ => .of_pure _
  have := @Reduces.of_assign r rhs s _ hmakes
  simpa [assign] using this

theorem minusAction_reduces (rhs : Rhs) (loc : Location) (s : ParseState) :
    Reduces 27 rhs s (minusAction rhs loc s) := by
  unfold minusAction
  cases hnode : rhs.value 2 with
  | null => exact .crash rfl hnode
  | node type op e v cs =>
    by_cases hint : type = .int
    · subst hint
      exact .of_number
    · by_cases hfloat : type = .float
      · subst hfloat
        exact .of_number
      · have hslip : Reduces 27 rhs s ((do
            yyerror (rhs.loc 2) "minus is not supporteed"
            return .value (rhs.value 1) : ParseM Verdict) s) :=
          .minus rfl (by rwa [hnode]) (by rwa [hnode]) (reported_of_ne _ (by decide) s)
        cases type <;> first | exact hslip | contradiction

theorem likeAction_reduces (rhs : Rhs) (loc : Location) (s : ParseState) :
    Reduces r rhs s (likeAction rhs loc s) := by
  unfold likeAction
  dsimp only
  by_cases hwrap : isWrapped (rhs.value 3).getString = true
  · simp only [hwrap, Bool.not_true, Bool.false_eq_true, if_false]
    have hmakes : Makes (do
        modify fun s => { s with
          yylval := (rhs.value 3).setString
            (((rhs.value 3).getString.drop 1).take ((rhs.value 3).getString.length - 2)) }
        newExprNode .compLike loc [rhs.value 1, (rhs.value 3).setString
            (((rhs.value 3).getString.drop 1).take ((rhs.value 3).getString.length - 2))]) :=
      .bind (.of_modify fun _ => ⟨rfl, rfl, rfl⟩) fun _ => .newExprNode _ _ _
    have := @Reduces.of_assign r rhs s _ hmakes
    simpa [assign] using this
  · simp only [hwrap, Bool.not_false, if_true]
    exact .error (reported_of_ne _ (append_ne (append_ne (by decide) _) _) s)

theorem selectAction_reduces (rhs : Rhs) (loc : Location) (s : ParseState) :
    Reduces r rhs s (selectAction rhs loc s) := by
  unfold selectAction
  cases rhs.value 5 with
  | null => exact .of_assign (.newPlanNode _ _ _ _)
  | node => exact .error (reported_of_ne _ (by decide) s)

theorem sortAction_reduces (loc : Location) (before item : List ParseNode) (s : ParseState) :
    Reduces r rhs s (sortAction loc before item s) := by
  have hmakes : Makes (do
      let pChild ← newParentNode "SortItem" loc item
      newListNode "SortList" loc (before ++ [pChild])) := .bind (.newParentNode _ _ _) fun _ => .newListNode _ _ _
  have := @Reduces.of_assign r rhs s _ hmakes
  simpa [assign, sortAction] using this

theorem action_reduces (r : Nat) (rhs : Rhs) (loc : Location) (s : ParseState) :
    Reduces r rhs s (action r rhs loc s) := by
  unfold action
  split
  case h_1 => exact .accept (.inl rfl) rfl
  case h_2 =>
    obtain ⟨p, s', hrun, hquiet⟩ | ⟨s', hrun, hquiet⟩ := Makes.newPlanNode "ExplainStmt" .explain loc [rhs.value 2] s
    · simp only [Bind.bind, EStateM.bind, hrun]
      exact .accept (.inr rfl) hquiet.error
    · simp only [Bind.bind, EStateM.bind, hrun]
      exact .full hquiet
  case h_4 => exact .raised (.refl s)
  case h_11 => exact minusAction_reduces rhs loc s
  case h_19 => exact likeAction_reduces rhs loc s
  all_goals first
    | with_reducible exact .of_value _
    | with_reducible exact .of_assign (.newExprNode _ _ _)
    | with_reducible exact .of_assign (.newListNode _ _ _)
    | with_reducible exact .of_assign (.newPlanNode _ _ _ _)
    | with_reducible exact .of_assign (.newParentNode _ _ _)
    | with_reducible exact .of_assign (.newInfoNode _ _)
    | with_reducible exact .of_assign (.newFuncNode _ _ _)
    | with_reducible exact selectAction_reduces rhs loc s
    | with_reducible exact sortAction_reduces _ _ _ s

theorem Reduces.input {res : EStateM.Result Fault ParseState Verdict} (h : Reduces r rhs s res) {v : ParseNode}
    {s' : ParseState} (hres : res = .ok (.value v) s') : s'.input = s.input := by
  subst hres
  cases h with
  | value h => exact h.input
  | minus _ _ _ h => exact h.input

theorem lex_eq (s : ParseState) :
    sqlActions.lex s =
      match yylex s with
      | .ok t s' => .ok (t.map yytranslate) s'
      | .error e s' => .error e s' := by
  simp only [sqlActions, Bind.bind, EStateM.bind]
  cases yylex s <;> rfl

/-- What one match of the scanner does: it is at the end, or the action of a rule runs behind the
text that is matched. -/
theorem lex_cases (s : ParseState) :
    s.input = [] ∧ sqlActions.lex s = .ok (some 105) s ∨
      ∃ n r yyleng res, ScanRule.scan lexRules s.input = some (n, r) ∧ 0 < yyleng ∧ yyleng ≤ s.input.length ∧
        Lexes r.action (advance yyleng s) res ∧
        sqlActions.lex s =
          match res with
          | .ok t s' => .ok (t.map yytranslate) s'
          | .error e s' => .error e s' := by
  obtain ⟨hinput, hyylex⟩ | ⟨n, r, hscan, hpos, hle, hyylex⟩ := yylex_cases s
  · exact .inl ⟨hinput, by rw [lex_eq, hyylex]; rfl⟩
  · exact .inr ⟨n, r, _, _, hscan, hpos, hle, lexAct_lexes r.action _ _, by rw [lex_eq, hyylex]⟩

theorem advance_input_lt {n : Nat} (hpos : 0 < n) (hle : n ≤ s.input.length) :
    (advance n s).input.length < s.input.length := by
  simp only [advance, List.length_drop]
  omega

theorem lex_left {t : Option Nat} {s' : ParseState} (h : sqlActions.lex s = .ok t s') :
    s'.input.length < s.input.length ∨ t = some 105 ∧ s'.input.length ≤ s.input.length := by
  obtain ⟨-, heof⟩ | ⟨n, r, yyleng, res, -, hpos, hle, hlexes, hres⟩ := lex_cases s
  · rw [heof] at h
    cases h
    exact .inr ⟨rfl, le_refl _⟩
  · left
    have hlt := advance_input_lt hpos hle
    have hkeep : s'.input = (advance yyleng s).input := by
      rw [hres] at h
      cases hlexes with
      | token hq | skip hq =>
        cases h
        exact hq.input
      | full => cases h
      | error hrep | unterminated _ hrep =>
        cases h
        exact hrep.input
    rwa [hkeep]

theorem semicolon_stops {s : Nat} (hs : s = 42 ∨ s = 44) {c c' : SqlConfig} {top : Lalr.Frame ParseNode Location}
    {below : List (Lalr.Frame ParseNode Location)} (hstack : c.stack = top :: below) (htop : top.state = s) :
    ¬ Lalr.Moves sqlTables sqlActions c c' := by
  have hconsistent : sqlTables.consistent top.state = true := consistent_of_mem (by simpa [htop] using Or.inr hs)
  obtain ⟨r, hrule, hr⟩ := defaultRule_semicolon hs
  intro hmove
  cases hmove with
  | lex htodo =>
    obtain ⟨top', below', hstack', hfalse, -⟩ := Lalr.todo_lex htodo
    rw [hstack] at hstack'
    cases hstack'
    rw [hconsistent] at hfalse
    cases hfalse
  | shift htodo =>
    obtain ⟨top', below', t, hstack', hfalse, -, -⟩ := Lalr.todo_shift htodo
    rw [hstack] at hstack'
    cases hstack'
    rw [hconsistent] at hfalse
    cases hfalse
  | @reduce r' base rest v loc env htodo hdrop haction =>
    obtain ⟨top', below', hstack', -, hreduce⟩ := Lalr.todo_reduce htodo
    rw [hstack] at hstack'
    cases hstack'
    rw [htop] at hreduce
    obtain rfl : r = r' := Option.some.inj (hrule.symm.trans hreduce)
    have hact : action r (sqlTables.rhs r c) loc c.env = .ok (.value v) env := haction
    obtain rfl | rfl := hr
    · cases hact
    · have := action_reduces 3 (sqlTables.rhs 3 c) loc c.env
      simp only [action, Bind.bind, EStateM.bind] at hact
      split at hact
      · cases hact
      · cases hact

def sqlInput : Lalr.Input sqlTables sqlActions where
  eof := 105
  left s := s.input.length
  lex_left _ _ _ h := lex_left h
  reduce_left r rhs loc s _ _ h := le_of_eq (congrArg List.length ((action_reduces r rhs loc s).input h))
  closing _ _ hshift _ _ _ hstack htop _ := semicolon_stops (shift_semicolon hshift) hstack htop

theorem start_path (s : ParseState) : sqlGround.Path (start s).stack := .bottom rfl

/-- The parser stops within `stepBound` steps, and never pops more than it has pushed. -/
theorem yyparse_stops (s : ParseState) :
    ∃ o s', Lalr.run sqlTables sqlActions (stepBound s.input.length) (start s) = some (o, s') ∧ o ≠ .underflow := by
  have hsize : sqlInput.size sqlGround (start s) + 2 = stepBound s.input.length := by
    simp only [Lalr.Input.size, Lalr.Input.pending, start, sqlInput, sqlGround, stepBound, List.length_singleton,
      show weight 0 = 0 from rfl]
  have hsome := Lalr.Input.run_isSome (N := sqlInput) (start_path s)
  rw [hsize] at hsome
  obtain ⟨⟨o, s'⟩, hrun⟩ := Option.isSome_iff_exists.mp hsome
  refine ⟨o, s', hrun, ?_⟩
  refine Lalr.run_rule (I := fun c => sqlGround.Path c.stack) (Q := fun o _ => o ≠ .underflow) ?_ ?_ (start_path s) hrun
  · exact fun d d' _ hpath hmove => Lalr.Ground.Path.of_moves hpath hmove
  · intro d o env _ hpath hstop ho
    subst ho
    exact hpath.not_underflow hstop

end LevelPgServer.SqlParser
