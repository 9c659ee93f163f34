import LevelPgServer.Common.ReportedErrors

/-! Who reports a syntax error: the driver, and no action of the scanner, of the grammar or of the rewriter. -/

namespace LevelPgServer

namespace QueryRewritter

open ParseNode StateRules

/-- What is thrown has no position in the text. -/
def Unplaced {α : Type} (m : ParseM α) : Prop :=
  Triple (fun _ => True) m (fun _ _ => True) fun e _ => ∃ what, e = parseError what

namespace Unplaced

variable {α β : Type}

theorem of_pure (a : α) : Unplaced (pure a : ParseM α) := Triple.of_pure a fun _ _ => trivial

theorem of_throw (what : String) : Unplaced (throw (parseError what) : ParseM α) :=
  Triple.of_throw _ fun _ _ => ⟨what, rfl⟩

theorem bind {m : ParseM α} {f : α → ParseM β} (hm : Unplaced m) (hf : ∀ a, Unplaced (f a)) : Unplaced (m >>= f) :=
  Triple.bind hm hf

theorem alloc (size : Nat) : Unplaced (QueryRewritter.alloc size) := by
  intro current _
  unfold QueryRewritter.alloc BumpAlloc.alloc
  split
  case h_1 => trivial
  case h_2 heq =>
    split at heq
    · cases heq
      exact ⟨_, rfl⟩
    · cases heq

theorem newParseNode (type : NodeType) (op : Operation) (sExpr : Bytes) (children : List ParseNode) :
    Unplaced (QueryRewritter.newParseNode type op sExpr children) := (alloc _).bind fun _ => of_pure _

theorem rewriteList (pParent : ParseNode) : Unplaced (QueryRewritter.rewriteList pParent) :=
  (newParseNode _ _ _ _).bind fun _ => of_pure _

theorem rewriteElement (pLeft : ParseNode) (isIn : Bool) (pChild : ParseNode) :
    Unplaced (QueryRewritter.rewriteElement pLeft isIn pChild) := by
  unfold QueryRewritter.rewriteElement
  split
  · exact of_throw _
  · exact bind ((alloc _).bind fun _ => of_pure _) fun _ => newParseNode _ _ _ _

theorem rewriteElements (pLeft : ParseNode) (isIn : Bool) (cs : List ParseNode) :
    Unplaced (QueryRewritter.rewriteElements pLeft isIn cs) := by
  induction cs with
  | nil => exact of_pure _
  | cons c cs ih => exact (rewriteElement pLeft isIn c).bind fun _ => ih.bind fun _ => of_pure _

theorem rewriteInOrNotIn (pNode : ParseNode) (isIn : Bool) : Unplaced (QueryRewritter.rewriteInOrNotIn pNode isIn) := by
  unfold QueryRewritter.rewriteInOrNotIn
  refine (rewriteList _).bind fun _ => (rewriteElements _ _ _).bind fun es => ?_
  split
  · exact of_pure _
  · exact newParseNode _ _ _ _

theorem andWithEach (l : ParseNode) (rs : List ParseNode) : Unplaced (QueryRewritter.andWithEach l rs) := by
  induction rs with
  | nil => exact of_pure _
  | cons r rs ih => exact (newParseNode _ _ _ _).bind fun _ => ih.bind fun _ => of_pure _

theorem distribute (rights ls : List ParseNode) : Unplaced (QueryRewritter.distribute rights ls) := by
  induction ls with
  | nil => exact of_pure _
  | cons l ls ih => exact (andWithEach l rights).bind fun _ => ih.bind fun _ => of_pure _

mutual

theorem rewriteOp : ∀ pNode, Unplaced (QueryRewritter.rewriteOp pNode)
  | .null => of_pure _
  | .node type op sExpr sValue children => by
    unfold QueryRewritter.rewriteOp
    split
    · exact (rewriteOps children).bind fun _ => of_pure _
    · exact (rewriteOps children).bind fun _ => of_pure _
    · exact (rewriteInOrNotIn _ _).bind fun _ => of_pure _
    · exact (rewriteInOrNotIn _ _).bind fun _ => of_pure _
    · exact of_pure _

theorem rewriteOps : ∀ cs, Unplaced (QueryRewritter.rewriteOps cs)
  | [] => of_pure _
  | c :: cs => (rewriteOp c).bind fun _ => (rewriteOps cs).bind fun _ => of_pure _

end

mutual

theorem collectOrOperators : ∀ pNode, Unplaced (QueryRewritter.collectOrOperators pNode)
  | .null => of_pure _
  | .node type op sExpr sValue children => by
    unfold QueryRewritter.collectOrOperators
    split
    · exact of_throw _
    · split
      · split
        · exact of_pure _
        · split
          · next l r rest _ =>
            exact (collectOrOperators l).bind fun _ => (collectOrOperators r).bind fun _ => distribute _ _
          · exact of_pure _
      · exact collectOrOperatorsOf children
      · exact of_pure _

theorem collectOrOperatorsOf : ∀ cs, Unplaced (QueryRewritter.collectOrOperatorsOf cs)
  | [] => of_pure _
  | c :: cs => (collectOrOperators c).bind fun _ => (collectOrOperatorsOf cs).bind fun _ => of_pure _

end

theorem liftOrPredicate (pParent : ParseNode) : Unplaced (QueryRewritter.liftOrPredicate pParent) :=
  (collectOrOperators pParent).bind fun _ => newParseNode _ _ _ _

mutual

theorem rewrite : ∀ pNode, Unplaced (QueryRewritter.rewrite pNode)
  | .null => by
    unfold QueryRewritter.rewrite
    exact of_pure _
  | .node type op sExpr sValue children => by
    unfold QueryRewritter.rewrite
    split
    · exact (alloc _).bind fun _ => (rewriteElementsOf sValue children).bind fun _ => of_pure _
    · refine (rewriteOp _).bind fun p => ?_
      split
      split
      · exact liftOrPredicate _
      · exact of_pure _
    · exact (rewriteChildren children).bind fun _ => of_pure _

theorem rewriteChildren : ∀ cs, Unplaced (QueryRewritter.rewriteChildren cs)
  | [] => by
    unfold QueryRewritter.rewriteChildren
    exact of_pure _
  | c :: cs => by
    unfold QueryRewritter.rewriteChildren
    exact (rewrite c).bind fun _ => (rewriteChildren cs).bind fun _ => of_pure _

theorem rewriteElementsIn (sName : Bytes) : ∀ pNode, Unplaced (QueryRewritter.rewriteElementsIn sName pNode)
  | .null => by
    unfold QueryRewritter.rewriteElementsIn
    exact of_pure _
  | .node type op sExpr sValue children => by
    unfold QueryRewritter.rewriteElementsIn
    split
    · exact rewriteElementsOf sName children
    · exact (rewrite _).bind fun _ => of_pure _

theorem rewriteElementsOf (sName : Bytes) : ∀ cs, Unplaced (QueryRewritter.rewriteElementsOf sName cs)
  | [] => by
    unfold QueryRewritter.rewriteElementsOf
    exact of_pure _
  | c :: cs => by
    unfold QueryRewritter.rewriteElementsOf
    exact (rewriteElementsIn sName c).bind fun _ => (rewriteElementsOf sName cs).bind fun _ => of_pure _

end

end Unplaced

end QueryRewritter

namespace SqlParser

open ParseNode StateRules Lalr

/-- No syntax error has been reported last. -/
def Unsaid (s : ParseState) : Prop := s.m_sError ≠ "syntax error"

/-- What is thrown is no syntax error with a place in the text. -/
def NoSyntaxError (f : Fault) : Prop := ∀ col : Nat, f ≠ .thrown (.parse "syntax error" col)

def Silent {α : Type} (m : ParseM α) : Prop := Triple Unsaid m (fun _ => Unsaid) fun f _ => NoSyntaxError f

theorem bufferFull_noSyntaxError : NoSyntaxError bufferFull := by
  intro col h
  have hmsg : "Not enough parse buffer" = "syntax error" := (Exn.parse.inj (Fault.thrown.inj h)).1
  exact absurd hmsg (by decide)

theorem append_ne_syntaxError {a : String} (h : 12 < a.length) (b : String) : a ++ b ≠ "syntax error" := by
  intro heq
  have hlen := congrArg String.length heq
  rw [String.length_append] at hlen
  have hlast : "syntax error".length = 12 := rfl
  omega

namespace Silent

variable {α β : Type}

theorem of_makes {m : ParseM α} (hm : Makes m) : Silent m := by
  intro s hs
  obtain ⟨a, s', hrun, hquiet⟩ | ⟨s', hrun, -⟩ := hm s
  · rw [hrun]
    change s'.m_sError ≠ "syntax error"
    rwa [hquiet.error]
  · rw [hrun]
    exact bufferFull_noSyntaxError

theorem bind {m : ParseM α} {f : α → ParseM β} (hm : Silent m) (hf : ∀ a, Silent (f a)) : Silent (m >>= f) :=
  Triple.bind hm hf

theorem of_pure (a : α) : Silent (pure a : ParseM α) := of_makes (.of_pure a)

theorem of_undefined : Silent (throw .undefined : ParseM α) := Triple.of_throw _ fun _ _ _ h => Fault.noConfusion h

theorem yyerror (loc : Location) {msg : String} (hmsg : msg ≠ "syntax error") : Silent (SqlParser.yyerror loc msg) :=
  Triple.of_modify _ fun _ _ => hmsg

theorem lexAct (a : LexAction) (yytext : Bytes) : Silent (SqlParser.lexAct a yytext) := by
  cases a with
  | keyword t => exact of_makes (.bind .of_get fun _ => .of_pure _)
  | null => exact (of_makes .of_get).bind fun _ => (yyerror _ (by decide)).bind fun _ => of_pure _
  | unterminated =>
    exact (of_makes .of_get).bind fun _ => (yyerror _ (append_ne_syntaxError (by decide) _)).bind fun _ => of_pure _
  | mystery =>
    exact (of_makes .of_get).bind fun _ => (yyerror _ (append_ne_syntaxError (by decide) _)).bind fun _ => of_pure _
  | comment | character => exact of_makes (.bind .of_get fun _ => .of_pure _)
  | bool | intnum | approxnum | dateValue | name | param =>
    refine of_makes (.bind .of_get fun s => .bind (.newSimpleNode _ _ _) fun pNode => ?_)
    exact .bind (.of_modify fun _ => ⟨rfl, rfl, rfl⟩) fun _ => .of_pure _
  | string | binary =>
    refine of_makes (.bind .of_get fun s => .bind (.newSimpleNode _ _ _) fun pNode => ?_)
    refine .bind (.of_modify fun _ => ⟨rfl, rfl, rfl⟩) fun _ => .bind (.alloc _) fun _ => ?_
    exact .bind (.of_modify fun _ => ⟨rfl, rfl, rfl⟩) fun _ => .of_pure _

theorem assign {m : ParseM ParseNode} (hm : Makes m) : Silent (SqlParser.assign m) :=
  of_makes (hm.bind fun _ => .of_pure _)

theorem minusAction (rhs : Rhs) (loc : Location) : Silent (SqlParser.minusAction rhs loc) := by
  have hnumber : ∀ type, Silent (do
      let pNode ← newSimpleNode type loc .none
      return (.value (pNode.setString pNode.sExpr) : Verdict)) :=
    fun type => of_makes (.bind (.newSimpleNode _ _ _) fun _ => .of_pure _)
  have hslip : Silent (do
      SqlParser.yyerror (rhs.loc 2) "minus is not supporteed"
      return (.value (rhs.value 1) : Verdict)) := (yyerror _ (by decide)).bind fun _ => of_pure _
  unfold SqlParser.minusAction
  cases rhs.value 2 with
  | null => exact of_undefined
  | node type op e v cs => cases type <;> first | exact hnumber _ | exact hslip

theorem selectAction (rhs : Rhs) (loc : Location) : Silent (SqlParser.selectAction rhs loc) := by
  unfold SqlParser.selectAction
  cases rhs.value 5 with
  | null => exact assign (.newPlanNode _ _ _ _)
  | node => exact (yyerror _ (by decide)).bind fun _ => of_pure _

theorem likeAction (rhs : Rhs) (loc : Location) : Silent (SqlParser.likeAction rhs loc) := by
  have hmsg : ∀ v : String, "missing " ++ v ++ " for like " ≠ "syntax error" := by
    intro v heq
    have hlen := congrArg String.length heq
    rw [String.length_append, String.length_append] at hlen
    have hfirst : "missing ".length = 8 := rfl
    have hlast : " for like ".length = 10 := rfl
    have htext : "syntax error".length = 12 := rfl
    omega
  unfold SqlParser.likeAction
  dsimp only
  cases isWrapped (rhs.value 3).getString with
  | false => exact (yyerror _ (hmsg _)).bind fun _ => of_pure _
  | true => exact bind (Triple.of_modify _ fun _ hs => hs) fun _ => assign (.newExprNode _ _ _)

theorem sortAction (loc : Location) (before item : List ParseNode) : Silent (SqlParser.sortAction loc before item) :=
  (of_makes (.newParentNode _ _ _)).bind fun _ => assign (.newListNode _ _ _)

theorem action (r : Nat) (rhs : Rhs) (loc : Location) : Silent (SqlParser.action r rhs loc) := by
  have haccept : ∀ pNode : ParseNode, Silent (do
      modify fun s => { s with m_pResult := pNode }
      return (.accept : Verdict)) := fun pNode => Triple.bind (Q := fun _ => Unsaid) (Triple.of_modify _ fun _ hs => hs)
        fun _ => of_pure _
  unfold SqlParser.action
  split
  case h_1 => exact haccept _
  case h_2 => exact (of_makes (.newPlanNode _ _ _ _)).bind fun _ => haccept _
  case h_4 => exact of_pure _
  case h_11 => exact minusAction rhs loc
  case h_19 => exact likeAction rhs loc
  all_goals first
    | with_reducible exact of_pure _
    | with_reducible exact assign (.newExprNode _ _ _)
    | with_reducible exact assign (.newListNode _ _ _)
    | with_reducible exact assign (.newPlanNode _ _ _ _)
    | with_reducible exact assign (.newParentNode _ _ _)
    | with_reducible exact assign (.newInfoNode _ _)
    | with_reducible exact assign (.newFuncNode _ _ _)
    | with_reducible exact selectAction rhs loc
    | with_reducible exact sortAction _ _ _

end Silent

theorem lex_silent : Silent sqlActions.lex := by
  intro s hs
  rw [lex_eq]
  obtain ⟨-, hlex⟩ | ⟨n, r, -, -, -, hlex⟩ := yylex_cases s
  · rw [hlex]
    exact hs
  · have hact := Silent.lexAct r.action (s.input.take (n - r.trailing)) (advance (n - r.trailing) s) hs
    rw [hlex]
    split at hact
    case h_1 hrun =>
      rw [hrun]
      exact hact
    case h_2 hrun =>
      rw [hrun]
      exact hact

/-- Where a run ends with a syntax error, the driver has reported it. -/
theorem rejects_of_run {n : Nat} {c : SqlConfig} {o : Outcome Fault} {s : ParseState} (hc : Unsaid c.env)
    (hrun : run sqlTables sqlActions n c = some (o, s)) :
    (∃ d, Reaches sqlTables sqlActions c d ∧ sqlTables.todo d = .syntaxError) ∨
      (∀ f, o = .thrown f → NoSyntaxError f) ∧ ((∀ f, o ≠ .thrown f) → Unsaid s) := by
  refine run_rule (I := fun c => Unsaid c.env)
    (Q := fun o s => (∃ d, Reaches sqlTables sqlActions c d ∧ sqlTables.todo d = .syntaxError) ∨
      (∀ f, o = .thrown f → NoSyntaxError f) ∧ ((∀ f, o ≠ .thrown f) → Unsaid s)) ?_ ?_ hc hrun
  · rintro d d' - hd hmove
    cases hmove with
    | lex _ hlex => exact lex_silent.ok hd hlex
    | shift => exact hd
    | reduce _ _ haction => exact (Silent.action _ _ _).ok hd haction
  · rintro d o s hreaches hd hstop
    have hquiet : ∀ o : Outcome Fault, (∀ f, o ≠ .thrown f) → Unsaid s →
        (∀ f, o = .thrown f → NoSyntaxError f) ∧ ((∀ f, o ≠ .thrown f) → Unsaid s) :=
      fun o ho hs => ⟨fun f hf => (ho f hf).elim, fun _ => hs⟩
    cases hstop with
    | lex _ hlex =>
      refine .inr ⟨?_, fun ho => (ho _ rfl).elim⟩
      rintro f ⟨⟩
      exact lex_silent.error hd hlex
    | action _ haction =>
      refine .inr ⟨?_, fun ho => (ho _ rfl).elim⟩
      rintro f ⟨⟩
      exact (Silent.action _ _ _).error hd haction
    | accept _ haction => exact .inr (hquiet _ (fun _ h => by cases h) ((Silent.action _ _ _).ok hd haction))
    | error _ haction => exact .inr (hquiet _ (fun _ h => by cases h) ((Silent.action _ _ _).ok hd haction))
    | final => exact .inr (hquiet _ (fun _ h => by cases h) hd)
    | rejected htodo => exact .inl ⟨d, hreaches, htodo⟩
    | exhausted =>
      have hmsg : "memory exhausted" ≠ "syntax error" := by decide
      exact .inr (hquiet _ (fun _ h => by cases h) hmsg)
    | empty => exact .inr (hquiet _ (fun _ h => by cases h) hd)
    | underflow => exact .inr (hquiet _ (fun _ h => by cases h) hd)

/-- A parse that throws a syntax error has come to a token that the tables reject. -/
theorem rejects_of_syntaxError {sql : Bytes} {s s' : ParseState} {col : Nat}
    (h : parse sql s = .error (.thrown (.parse "syntax error" col)) s') :
    ∃ c, Reaches sqlTables sqlActions (start (opened sql s)) c ∧ sqlTables.todo c = .syntaxError := by
  have hopened : Unsaid (start (opened sql s)).env := by
    change "" ≠ "syntax error"
    decide
  obtain ⟨t, hfull⟩ | hparse := parseSql_eq sql s
  · simp only [parse, Bind.bind, EStateM.bind, hfull] at h
    obtain ⟨hfault, -⟩ := EStateM.Result.error.inj h
    exact (bufferFull_noSyntaxError col hfault).elim
  · obtain ⟨o, s'', hrun, hunder⟩ := yyparse_stops (opened sql s)
    obtain hreaches | ⟨hthrown, hunsaid⟩ := rejects_of_run hopened hrun
    · exact hreaches
    exfalso
    have hok : ∀ s'' : ParseState, parseSql sql s = .ok () s'' → Unsaid s'' → False := by
      intro s'' hparse hs
      simp only [parse, Bind.bind, EStateM.bind, hparse, StateRules.get_run] at h
      cases hnode : s''.m_pResult with
      | null =>
        rw [hnode] at h
        obtain ⟨hfault, -⟩ := EStateM.Result.error.inj h
        exact hs (Exn.parse.inj (Fault.thrown.inj hfault)).1
      | node type op e v cs =>
        rw [hnode] at h
        simp only [rewrite, hnode] at h
        split at h
        · cases h
        · next hrewrite =>
          obtain ⟨what, rfl⟩ := (QueryRewritter.Unplaced.rewrite _).error trivial hrewrite
          obtain ⟨hfault, -⟩ := EStateM.Result.error.inj h
          have hcol := (Exn.parse.inj (Fault.thrown.inj hfault)).2
          omega
    cases o with
    | thrown f =>
      simp only [parse, Bind.bind, EStateM.bind, hparse, yyparse, hrun] at h
      obtain ⟨hfault, -⟩ := EStateM.Result.error.inj h
      exact hthrown f rfl col hfault
    | underflow => exact hunder rfl
    | accepted | aborted | exhausted =>
      refine hok s'' (hparse.trans ?_) (hunsaid fun _ h => by cases h)
      simp only [yyparse, hrun]

end SqlParser

end LevelPgServer
