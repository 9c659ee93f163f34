import LevelPgServer.Common.SqlGrammar

/-! The derivations of the texts that are parsed. -/

namespace LevelPgServer.SqlParser

open ParseNode Lalr

/-- A computation that keeps a part of the state. -/
def Leaves {α β : Type} (f : ParseState → β) (m : ParseM α) : Prop := ∀ s a s', m s = .ok a s' → f s' = f s

namespace Leaves

variable {α β γ : Type} {f : ParseState → γ}

theorem of_pure (a : α) : Leaves f (pure a : ParseM α) := by
  intro s b s' h
  cases h
  rfl

theorem of_get : Leaves f (get : ParseM ParseState) := by
  intro s b s' h
  cases h
  rfl

theorem of_throw (e : Fault) : Leaves f (throw e : ParseM α) := by
  intro s b s' h
  cases h

theorem of_modify {g : ParseState → ParseState} (hg : ∀ s, f (g s) = f s) : Leaves f (modify g : ParseM PUnit) := by
  intro s b s' h
  cases h
  exact hg s

theorem bind {m : ParseM α} {k : α → ParseM β} (hm : Leaves f m) (hk : ∀ a, Leaves f (k a)) : Leaves f (m >>= k) := by
  intro s b s'' h
  simp only [Bind.bind, EStateM.bind] at h
  cases hrun : m s with
  | error e s' =>
    rw [hrun] at h
    cases h
  | ok a s' =>
    rw [hrun] at h
    exact (hk a s' b s'' h).trans (hm s a s' hrun)

theorem assign {m : ParseM ParseNode} (hm : Leaves f m) : Leaves f (SqlParser.assign m) := hm.bind fun _ => of_pure _

variable (hf : ∀ (s : ParseState) (n : Nat), f { s with m_iCurrent := n } = f s)

include hf

theorem alloc (size : Nat) : Leaves f (SqlParser.alloc size) := by
  intro s a s' h
  obtain ⟨-, halloc⟩ | ⟨-, halloc⟩ := alloc_cases size s
  · cases halloc.symm.trans h
  · cases halloc.symm.trans h
    exact hf s _

theorem newParseNode (type : NodeType) (op : Operation) (loc : Location) (children : List ParseNode) :
    Leaves f (SqlParser.newParseNode type op loc children) :=
  (alloc hf _).bind fun _ => of_get.bind fun _ => of_pure _

theorem newExprNode (op : Operation) (loc : Location) (children : List ParseNode) :
    Leaves f (SqlParser.newExprNode op loc children) := newParseNode hf .op op loc children

theorem newInfoNode (op : Operation) (loc : Location) : Leaves f (SqlParser.newInfoNode op loc) :=
  newParseNode hf .info op loc []

theorem newFuncNode (sName : Bytes) (loc : Location) (children : List ParseNode) :
    Leaves f (SqlParser.newFuncNode sName loc children) := (newParseNode hf _ _ _ _).bind fun _ => of_pure _

theorem newParentNode (sName : String) (loc : Location) (children : List ParseNode) :
    Leaves f (SqlParser.newParentNode sName loc children) := (newParseNode hf _ _ _ _).bind fun _ => of_pure _

theorem newPlanNode (sName : String) (op : Operation) (loc : Location) (children : List ParseNode) :
    Leaves f (SqlParser.newPlanNode sName op loc children) := (newParseNode hf _ _ _ _).bind fun _ => of_pure _

theorem newListNode (sName : String) (loc : Location) (children : List ParseNode) :
    Leaves f (SqlParser.newListNode sName loc children) := (newParseNode hf _ _ _ _).bind fun _ => of_pure _

theorem sortAction (loc : Location) (before item : List ParseNode) : Leaves f (SqlParser.sortAction loc before item) :=
  (newParentNode hf _ _ _).bind fun _ => assign (newListNode hf _ _ _)

variable (hreported : ∀ (s : ParseState) (loc : Location) (msg : String), f (reported loc msg s) = f s)

include hreported

theorem minusAction (rhs : Rhs) (loc : Location) : Leaves f (SqlParser.minusAction rhs loc) := by
  have hnumber : ∀ type, Leaves f (do
      let pNode ← newSimpleNode type loc .none
      return (.value (pNode.setString pNode.sExpr) : Verdict)) :=
    fun type => (newParseNode hf _ _ _ _).bind fun _ => of_pure _
  have hslip : Leaves f (do
      yyerror (rhs.loc 2) "minus is not supporteed"
      return (.value (rhs.value 1) : Verdict)) :=
    (of_modify fun s => hreported s _ _).bind fun _ => of_pure _
  unfold SqlParser.minusAction
  cases rhs.value 2 with
  | null => exact of_throw _
  | node type op e v cs => cases type <;> first | exact hnumber _ | exact hslip

theorem selectAction (rhs : Rhs) (loc : Location) : Leaves f (SqlParser.selectAction rhs loc) := by
  unfold SqlParser.selectAction
  cases rhs.value 5 with
  | null => exact assign (newPlanNode hf _ _ _ _)
  | node => exact (of_modify fun s => hreported s _ _).bind fun _ => of_pure _

theorem likeAction (hvalue : ∀ (s : ParseState) (v : ParseNode), f { s with yylval := v } = f s) (rhs : Rhs)
    (loc : Location) : Leaves f (SqlParser.likeAction rhs loc) := by
  unfold SqlParser.likeAction
  dsimp only
  cases isWrapped (rhs.value 3).getString with
  | false => exact (of_modify fun s => hreported s _ _).bind fun _ => of_pure _
  | true => exact (of_modify fun s => hvalue s _).bind fun _ => assign (newExprNode hf _ _ _)

/-- What the actions of the rules leave alone. The one of `LIKE` changes the value of the token read last. -/
theorem action {r : Nat} (hresult : ∀ (s : ParseState) (p : ParseNode), f { s with m_pResult := p } = f s)
    (hvalue : r = 35 → ∀ (s : ParseState) (v : ParseNode), f { s with yylval := v } = f s)
    (rhs : Rhs) (loc : Location) :
    Leaves f (SqlParser.action r rhs loc) := by
  unfold SqlParser.action
  split
  case h_1 => exact (of_modify fun s => hresult s _).bind fun _ => of_pure _
  case h_2 => exact (newPlanNode hf _ _ _ _).bind fun _ => (of_modify fun s => hresult s _).bind fun _ => of_pure _
  case h_4 => exact of_pure _
  case h_11 => exact minusAction hf hreported rhs loc
  case h_19 => exact likeAction hf hreported (hvalue rfl) rhs loc
  all_goals first
    | with_reducible exact of_pure _
    | with_reducible exact assign (newExprNode hf _ _ _)
    | with_reducible exact assign (newListNode hf _ _ _)
    | with_reducible exact assign (newPlanNode hf _ _ _ _)
    | with_reducible exact assign (newParentNode hf _ _ _)
    | with_reducible exact assign (newInfoNode hf _ _)
    | with_reducible exact assign (newFuncNode hf _ _ _)
    | with_reducible exact selectAction hf hreported rhs loc
    | with_reducible exact sortAction hf _ _ _

end Leaves

/-- The value that a rule of the scanner makes of what it has matched at a place of the text; the keywords and
the characters have none. -/
def LexAction.value (sql yytext : Bytes) (loc : Location) : LexAction → Option ParseNode
  | .bool value => some (node .int .none yytext (bytes value) [])
  | .intnum => some (node .int .none yytext yytext [])
  | .approxnum => some (node .float .none yytext yytext [])
  | .string =>
    some (node .str .none yytext (unescape (yytext.length - 1) (yytext.length - 2) (sql.drop loc.first_column)) [])
  | .binary =>
    let len := if yytext.getLastD 0 = 39 then yytext.length - 1 else yytext.length
    some (node .binary .none yytext (unhex ((yytext.take len).drop 2)) [])
  | .dateValue => some (node .date .none yytext ((yytext.drop 2).take (yytext.length - 3)) [])
  | .name => some (node .name .none yytext yytext [])
  | .param => some (node .param .unboundParam yytext [] [])
  | _ => none

/-- The action of a rule gives the token its value, and leaves its place alone. -/
theorem lexAct_value {a : LexAction} {yytext : Bytes} {t : Token} {s s' : ParseState}
    (htext : getExpr s.yylloc s = yytext)
    (h : lexAct a yytext s = .ok (some t) s') :
    (∀ v ∈ a.value s.m_sSql yytext s.yylloc, s'.yylval = v) ∧ s'.yylloc = s.yylloc := by
  cases a with
  | keyword | null | mystery | character =>
    cases h
    exact ⟨fun v hv => (by cases hv), rfl⟩
  | comment | unterminated => cases h
  | string =>
    obtain ⟨-, -, rfl⟩ := lexAct_string.mp h
    refine ⟨fun v hv => ?_, rfl⟩
    cases hv
    rw [htext]
    rfl
  | binary =>
    unfold lexAct at h
    simp only [Bind.bind, EStateM.bind, StateRules.get_run, StateRules.modify_run, newSimpleNode_run, htext] at h
    split at h
    · next hrun =>
      split at hrun
      · cases hrun
      · cases hrun
        split at h
        · next halloc =>
          have hloc := Leaves.alloc (f := fun s => s.yylloc) (fun _ _ => rfl) _ _ _ _ halloc
          cases h
          refine ⟨fun v hv => ?_, hloc⟩
          cases hv
          rfl
        · cases h
    · cases h
  | bool | intnum | approxnum | dateValue | name | param =>
    unfold lexAct at h
    simp only [Bind.bind, EStateM.bind, StateRules.get_run, StateRules.modify_run, newSimpleNode_run, htext] at h
    split at h
    · next hrun =>
      split at hrun
      · cases hrun
      · cases hrun
        cases h
        refine ⟨fun v hv => ?_, rfl⟩
        cases hv
        rfl
    · cases h

/-- The tokens of some matches of the scanner, the first of which starts at a column: each has its place, and
the value that its rule makes. -/
def readings (sql : Bytes) : Nat → List Piece → List (Nat × Option ParseNode × Location)
  | _, [] => []
  | column, p :: ps =>
    let loc := ⟨column, column + p.yytext.length - 1⟩
    ((p.action.token p.yytext).map fun t => (yytranslate t, p.action.value sql p.yytext loc, loc)).toList ++
      readings sql (column + p.yytext.length) ps

def width (ps : List Piece) : Nat := (ps.map fun p => p.yytext.length).sum

theorem readings_append (sql : Bytes) (column : Nat) (ps qs : List Piece) :
    readings sql column (ps ++ qs) = readings sql column ps ++ readings sql (column + width ps) qs := by
  induction ps generalizing column with
  | nil => rfl
  | cons p ps ih =>
    have hwidth : width (p :: ps) = p.yytext.length + width ps := rfl
    rw [List.cons_append, readings, readings, ih, hwidth, List.append_assoc, Nat.add_assoc]

/-- A token as it stands in a tree, and as the scanner gives it. -/
def ReadAs (x : Nat × Option ParseNode × Location) (y : Nat × ParseNode × Location) : Prop :=
  y.1 = x.1 ∧ (∀ v ∈ x.2.1, y.2.1 = v) ∧ y.2.2 = x.2.2

/-- The tokens `word` are those that the matches `ps` at the beginning of the text give. -/
def SpelledBy (sql : Bytes) (ps : List Piece) (word : List (Nat × ParseNode × Location)) : Prop :=
  List.Forall₂ ReadAs (readings sql 1 ps) word

theorem Consumes.width {input rest : Bytes} {ps : List Piece} (h : Consumes input ps rest) :
    SqlParser.width ps + rest.length = input.length := by
  induction h with
  | nil => exact Nat.zero_add _
  | @snoc ps p rest rest' _ hp ih =>
    obtain ⟨n, r, -, rfl, rfl⟩ := hp
    rw [SqlParser.width, List.map_append, List.sum_append, List.map_singleton, List.sum_singleton]
    rw [SqlParser.width] at ih
    simp only [List.length_take, List.length_drop]
    omega

/-- The scanner has read the tokens, and `rest` is left of the text; at its end it returns semicolons. -/
def Took (sql rest : Bytes) (word : List (Nat × ParseNode × Location)) : Prop :=
  ∃ ps read ends, Consumes (sql.takeWhile (· != 0)) ps rest ∧ word = read ++ ends ∧ SpelledBy sql ps read ∧
    (∀ a ∈ ends, a.1 = 105) ∧ (ends = [] ∨ rest = [])

/-- What the action of a rule makes of the values and the locations of its right side. -/
def Builds (sql : Bytes) (r : Nat) (rhs : Rhs) (a : ParseNode × Location) : Prop :=
  ∃ base s s', s.m_sSql = sql ∧ a.2 = yyllocDefault base (rhs.map Prod.snd) ∧ action r rhs a.2 s = .ok (.value a.1) s'

/-- What the scanner has read of a text of which `s.input` is left. -/
structure Scanned (sql : Bytes) (s : ParseState) : Prop where
  sql_eq : s.m_sSql = sql
  at_ : At s
  column : s.m_yycolumn + s.input.length = 1 + (sql.takeWhile (· != 0)).length

/-- One match: the token has the text, the place and the value of the next piece. -/
theorem lex_reads {sql : Bytes} {s s' : ParseState} {t : Option Nat} (hs : Scanned sql s)
    (h : sqlActions.lex s = .ok t s') :
    s.input = [] ∧ t = some 105 ∧ s' = s ∨
      ∃ p, NextPiece s.input p s'.input ∧
        List.Forall₂ ReadAs (readings sql s.m_yycolumn [p]) (ahead sqlActions t s') := by
  rw [lex_eq] at h
  obtain ⟨hnil, hlex⟩ | ⟨n, r, hscan, hpos, hle, hlex⟩ := yylex_cases s
  · rw [hlex] at h
    cases h
    exact .inl ⟨hnil, rfl, rfl⟩
  · right
    have hlen : (s.input.take (n - r.trailing)).length = n - r.trailing := List.length_take_of_le hle
    have hkeeps := lexAct_keeps r.action (s.input.take (n - r.trailing)) (advance (n - r.trailing) s)
    have hgives := lexAct_gives r.action (s.input.take (n - r.trailing)) (advance (n - r.trailing) s)
    have htext : getExpr (advance (n - r.trailing) s).yylloc (advance (n - r.trailing) s) =
      s.input.take (n - r.trailing) := by
      obtain ⟨tail, htail⟩ := hs.at_.input
      have hcolumn := hs.at_.column
      have hsize : s.m_yycolumn + (n - r.trailing) - 1 + 1 - s.m_yycolumn = n - r.trailing := by omega
      change (s.m_sSql.drop (s.m_yycolumn - 1)).take (s.m_yycolumn + (n - r.trailing) - 1 + 1 - s.m_yycolumn) = _
      rw [hsize, ← htail, List.take_append_of_le_length hle]
    rw [hlex] at h
    cases hrun : lexAct r.action (s.input.take (n - r.trailing)) (advance (n - r.trailing) s) with
    | error e s2 =>
      rw [hrun] at h
      cases h
    | ok t2 s2 =>
      rw [hrun] at h hkeeps
      cases h
      have ht := hgives t2 s' hrun
      refine ⟨⟨r.action, s.input.take (n - r.trailing)⟩, ⟨n, r, hscan, rfl, hkeeps.1⟩, ?_⟩
      cases t2 with
      | none =>
        rw [readings, ← ht]
        exact .nil
      | some t2 =>
        obtain ⟨hvalue, hloc⟩ := lexAct_value htext hrun
        rw [readings, ← ht, readings, hlen]
        refine .cons ⟨rfl, fun v hv => hvalue v ?_, hloc⟩ .nil
        rw [← hs.sql_eq] at hv
        exact hv

theorem lex_took {sql : Bytes} {s s' : ParseState} {t : Option Nat} {word : List (Nat × ParseNode × Location)}
    (hs : Scanned sql s) (htook : Took sql s.input word) (h : sqlActions.lex s = .ok t s') :
    Took sql s'.input (word ++ ahead sqlActions t s') := by
  obtain ⟨ps, read, ends, hread, rfl, hreads, hends, hrest⟩ := htook
  obtain ⟨hnil, rfl, rfl⟩ | ⟨p, hp, hgives⟩ := lex_reads hs h
  · refine ⟨ps, read, ends ++ ahead sqlActions (some 105) s', hread, List.append_assoc _ _ _, hreads, ?_, .inr hnil⟩
    intro a ha
    obtain ha | ha := List.mem_append.mp ha
    · exact hends a ha
    · rw [List.mem_singleton.mp ha]
  · obtain rfl : ends = [] := by
      obtain hnil | hnil := hrest
      · exact hnil
      · obtain ⟨n, r, hscan, -, -⟩ := hp
        rw [hnil] at hscan
        exact (scan_nil hscan).elim
    have hcolumn : s.m_yycolumn = 1 + width ps := by
      have hwidth := hread.width
      have hsum := hs.column
      omega
    refine ⟨ps ++ [p], read ++ ahead sqlActions t s', [], hread.snoc hp, by simp, ?_, by simp, .inl rfl⟩
    rw [SpelledBy, readings_append, ← hcolumn]
    exact List.rel_append hreads hgives

theorem Scanned.lex {sql : Bytes} {s s' : ParseState} {t : Option Nat} (hs : Scanned sql s)
    (h : sqlActions.lex s = .ok t s') : Scanned sql s' := by
  rw [lex_eq] at h
  cases hrun : yylex s with
  | error e s2 =>
    rw [hrun] at h
    cases h
  | ok t2 s2 =>
    rw [hrun] at h
    cases h
    obtain ⟨-, hlex⟩ | ⟨n, r, -, -, hle, hlex⟩ := yylex_cases s
    · cases hlex.symm.trans hrun
      exact hs
    · have hkeeps := lexAct_keeps r.action (s.input.take (n - r.trailing)) (advance (n - r.trailing) s)
      rw [← hlex, hrun] at hkeeps
      obtain ⟨hinput, hsql, hcolumn⟩ := hkeeps
      refine ⟨hsql.trans hs.sql_eq, hs.at_.yylex hrun, ?_⟩
      have hsum := hs.column
      rw [hinput, hcolumn, advance]
      simp only [List.length_drop]
      omega

set_option maxRecDepth 4000 in
/-- The state that reduces by the rule of `LIKE` is the one behind its pattern. -/
theorem like_state {s : Nat} (h : defaultRule s = some 35) :
    stateSymbol s = .terminal 4 ∧ sqlTables.consistent s = true := by
  have hmem := @defaultRule_mem [35] [87] rfl s 35 h (List.mem_singleton.mpr rfl)
  rw [List.mem_singleton.mp hmem]
  decide

def sqlReading (sql : Bytes) : Reading sqlSpelling sqlActions where
  took s word := Scanned sql s ∧ Took sql s.input word
  builds := Builds sql
  lex s word t s' htook h := ⟨htook.1.lex h, lex_took htook.1 htook.2 h⟩
  reduce s word r rhs base v s' htook h := by
    have hkeep := Leaves.action (f := fun s => (s.m_sSql, s.input, s.m_yycolumn)) (fun _ _ => rfl) (fun _ _ _ => rfl)
      (fun _ _ => rfl) (fun _ _ _ => rfl) rhs _ s _ s' h
    obtain ⟨hsql, hrest⟩ := Prod.mk.inj hkeep
    obtain ⟨hinput, hcolumn⟩ := Prod.mk.inj hrest
    obtain ⟨hscanned, htook⟩ := htook
    refine ⟨⟨⟨hsql.trans hscanned.sql_eq, ⟨?_, ?_⟩, ?_⟩, ?_⟩, base, s, s', hscanned.sql_eq, rfl, h⟩
    · rw [hcolumn]
      exact hscanned.at_.column
    · rw [hinput, hsql, hcolumn]
      exact hscanned.at_.input
    · rw [hinput, hcolumn]
      exact hscanned.column
    · rw [hinput]
      exact htook
  keeps s r hreduce := by
    by_cases hlike : r = 35
    · subst hlike
      exact .inl ⟨4, like_state hreduce⟩
    · refine .inr fun rhs loc s v s' h => ?_
      have hkeep := Leaves.action (f := fun s => (s.yylval, s.yylloc)) (fun _ _ => rfl) (fun _ _ _ => rfl)
        (fun _ _ => rfl) (fun hr => (hlike hr).elim) rhs loc s _ s' h
      exact Prod.mk.inj hkeep

def anyToken (_ : Nat) (_ : ParseNode × Location) : Prop := True

/-- The tokens `word` derive a statement, and `pNode` is what the actions of the rules make of their values. -/
def Derivation (sql : Bytes) (word : List (Nat × ParseNode × Location)) (pNode : ParseNode)
    (children : List SqlTree) : Prop :=
  ∃ r base s s', production r = some ⟨.sql_stmt, children.map ParseTree.root⟩ ∧
    (∀ T ∈ children, T.Valid production anyToken (Builds sql)) ∧
    children.flatMap ParseTree.word = word ∧ s.m_sSql = sql ∧
    action r (children.map ParseTree.attr) (yyllocDefault base ((children.map ParseTree.attr).map Prod.snd)) s =
      .ok .accept s' ∧ s'.m_pResult = pNode

theorem Derivation.mem_language {sql : Bytes} {word : List (Nat × ParseNode × Location)} {pNode : ParseNode}
    {children : List SqlTree} (h : Derivation sql word pNode children) : word.map Prod.fst ∈ sqlGrammar.language := by
  obtain ⟨r, -, -, -, hrule, hvalid, rfl, -⟩ := h
  have hproduces : sqlGrammar.Produces [.nonterminal .sql_stmt] (children.map ParseTree.root) := by
    have hrewrites := ContextFreeRule.Rewrites.input_output (r := ⟨.sql_stmt, children.map ParseTree.root⟩)
    exact ⟨_, production_mem hrule, hrewrites⟩
  have hderives := ParseTree.derives_of_forall (G := sqlGrammar) fun T hT =>
    (hvalid T hT).derives fun r R => production_mem
  rw [ContextFreeGrammar.mem_language_iff, List.map_map]
  exact hproduces.trans_derives hderives

/-- The states behind the semicolon of a statement lie on the bottom of the stack. -/
theorem under_semicolon {s r p : Nat} (hs : s = 42 ∨ s = 44) (h : defaultRule s = some r)
    (hp : p ∈ Lalr.under below (yyr2.getD r 0) s) : p = 0 := by
  obtain rfl | rfl := hs
  · obtain rfl : 2 = r := Option.some.inj ((by decide : defaultRule 42 = some 2).symm.trans h)
    have hunder : Lalr.under below (yyr2.getD 2 0) 42 = [0] := by decide
    rw [hunder] at hp
    exact List.mem_singleton.mp hp
  · obtain rfl : 3 = r := Option.some.inj ((by decide : defaultRule 44 = some 3).symm.trans h)
    have hunder : Lalr.under below (yyr2.getD 3 0) 44 = [0] := by decide
    rw [hunder] at hp
    exact List.mem_singleton.mp hp

/-- Where the parser accepts, the trees on its stack derive what has been read. -/
theorem derivation_of_stop {sql : Bytes} {c : SqlConfig} {Ts : List SqlTree} {s : ParseState}
    (h : Stands (sqlReading sql) c Ts) (hresult : c.env.m_pResult = .null)
    (hstep : step sqlTables sqlActions c = .stop .accepted s) :
    s.m_pResult = .null ∨
      ∃ word, Derivation sql word s.m_pResult Ts.reverse ∧ Took sql s.input word := by
  by_cases hfinal : sqlTables.todo c = .accept
  · left
    unfold step at hstep
    rw [hfinal] at hstep
    cases hstep
    exact hresult
  · right
    obtain ⟨r, R, top, below', base, rest, popped, kept,
      htodo, hstack, hreduce, hR, rfl, hroots, hmem, hkept, haction⟩ :=
      h.accepts hfinal hstep
    obtain ⟨hinput, hr⟩ := accept_input haction
    have htop := defaultRule_accepts hreduce hr
    have hbase : base.state = 0 := under_semicolon htop hreduce hmem
    obtain rfl : kept = [] := by
      cases hkept with
      | bottom => rfl
      | push hbelow =>
        have hnil : sqlGround.below 0 = [] := by decide
        rw [hbase, hnil] at hbelow
        exact absurd hbelow List.not_mem_nil
    have hlook : c.lookahead = none := by
      have hconsistent : sqlTables.consistent top.state = true := consistent_of_mem (by simpa using Or.inr htop)
      refine h.fresh top below' 105 hstack ?_ hconsistent
      obtain htop | htop := htop <;> rw [htop] <;> decide
    have hinitial : R.input = .sql_stmt := by
      have hall : ∀ r ∈ [2, 3], (production r).map ContextFreeRule.input = some .sql_stmt := by decide
      have hinput := hall r (by simpa using hr)
      rw [hR] at hinput
      exact Option.some.inj hinput
    have htook := h.took
    rw [List.append_nil] at *
    rw [hlook, ahead, Option.toList_none, List.map_nil, List.append_nil] at htook
    refine ⟨_, ⟨r, base.loc, c.env, s, hR.trans ?_, ?_, rfl, htook.1.sql_eq, haction, rfl⟩, ?_⟩
    · rw [hroots, ← hinitial]
    · exact fun T hT => h.valid T (List.mem_reverse.mp hT)
    · rw [hinput]
      exact htook.2

/-- A text that is parsed has been read as a derivation, of which what every step keeps holds. -/
theorem derivation_of_parse {sql : Bytes} {s s' : ParseState} {J : SqlConfig → List SqlTree → Prop}
    (hstart : J (start (opened sql s)) [])
    (hstep : ∀ c Ts c' Ts', Stands (sqlReading sql) c Ts → J c Ts → step sqlTables sqlActions c = .run c' →
      Grows sqlTables production c Ts c' Ts' → J c' Ts')
    (h : parse sql s = .ok () s') :
    ∃ word pNode children c current, Derivation sql word pNode children ∧ J c children.reverse ∧
      Took sql s'.input word ∧
      QueryRewritter.rewrite pNode current = .ok s'.m_pResult s'.m_iCurrent := by
  obtain ⟨s2, hparse, hrun⟩ := accepted_of_parse h
  have hends : s2.m_pResult = .null ∨ ∃ word children c, Derivation sql word s2.m_pResult children ∧
      J c children.reverse ∧ Took sql s2.input word := by
    refine run_steps (I := fun c => (∃ Ts, Stands (sqlReading sql) c Ts ∧ J c Ts) ∧ c.env.m_pResult = .null)
      (Q := fun o s => o = .accepted → s.m_pResult = .null ∨ ∃ word children c,
        Derivation sql word s.m_pResult children ∧ J c children.reverse ∧
          Took sql s.input word) ?_ ?_ ⟨⟨[], ?_, hstart⟩, rfl⟩ hrun rfl
    · rintro d d' ⟨⟨Ts, hstands, hJ⟩, hresult⟩ hd
      obtain ⟨Ts', hstands', hgrows⟩ := hstands.step hd
      exact ⟨⟨Ts', hstands', hstep d Ts d' Ts' hstands hJ hd hgrows⟩, result_of_moves hresult (step_run hd)⟩
    · rintro d o env ⟨⟨Ts, hstands, hJ⟩, hresult⟩ hd rfl
      obtain hnull | ⟨word, hderivation, htook⟩ := derivation_of_stop hstands hresult hd
      · exact .inl hnull
      · exact .inr ⟨word, Ts.reverse, d, hderivation, by rwa [List.reverse_reverse], htook⟩
    · have hscanned : Scanned sql (start (opened sql s)).env := ⟨rfl, ⟨le_rfl, List.takeWhile_prefix _⟩, rfl⟩
      exact ⟨.bottom rfl, fun T hT => absurd hT List.not_mem_nil,
        ⟨hscanned, [], [], [], .nil, rfl, .nil, by simp, .inl rfl⟩, fun _ _ _ _ _ _ => rfl⟩
  simp only [parse, Bind.bind, EStateM.bind, hparse, StateRules.get_run] at h
  cases hnode : s2.m_pResult with
  | null =>
    rw [hnode] at h
    cases h
  | node type op e v cs =>
    rw [hnode] at h hends
    obtain hnull | ⟨word, children, c, hderivation, hJ, htook⟩ := hends
    · cases hnull
    · simp only [rewrite, hnode] at h
      split at h
      · next hrewrite =>
        cases h
        exact ⟨word, _, children, c, s2.m_iCurrent, hderivation, hJ, htook, hrewrite⟩
      · cases h

/-! A semicolon ends a statement, and stands nowhere else in it. -/

theorem productions_semicolon : productions.all (fun R => R.input == .sql_stmt ||
    R.output.all fun X => X != .terminal 105 && X != .nonterminal .sql_stmt) = true := by decide

theorem semicolon_not_mem {reads : Nat → ParseNode × Location → Prop} {builds : Nat → Rhs → ParseNode × Location → Prop}
    {T : SqlTree} (h : T.Valid production reads builds)
    (hroot : T.root ≠ .terminal 105 ∧ T.root ≠ .nonterminal .sql_stmt) :
    105 ∉ T.word.map Prod.fst := by
  induction h with
  | token =>
    rw [ParseTree.word_token]
    simpa [ParseTree.root] using hroot.1.symm
  | @node r B a children hrule _ _ ih =>
    have hall := List.all_eq_true.mp productions_semicolon _ (List.mem_toFinset.mp (production_mem hrule))
    have hB : B ≠ .sql_stmt := fun hB => hroot.2 (by rw [ParseTree.root, hB])
    rw [Bool.or_eq_true, or_iff_right (by simpa using hB)] at hall
    rw [ParseTree.word_node, List.map_flatMap, List.mem_flatMap]
    rintro ⟨T, hT, hmem⟩
    have hX := List.all_eq_true.mp hall T.root (List.mem_map_of_mem hT)
    simp only [Bool.and_eq_true, bne_iff_ne] at hX
    exact ih T hT hX hmem

theorem Derivation.closes {sql : Bytes} {word : List (Nat × ParseNode × Location)} {pNode : ParseNode}
    {children : List SqlTree} (h : Derivation sql word pNode children) :
    ∃ w' a, word = w' ++ [(105, a)] ∧ 105 ∉ w'.map Prod.fst := by
  obtain ⟨r, -, -, -, hrule, hvalid, rfl, -⟩ := h
  have hall : productions.all (fun R => R.input != .sql_stmt || R.output.getLast? == some (.terminal 105) &&
      R.output.dropLast.all fun X => X != .terminal 105 && X != .nonterminal .sql_stmt) = true := by decide
  have hrule := List.all_eq_true.mp hall _ (List.mem_toFinset.mp (production_mem hrule))
  simp only [bne_self_eq_false, Bool.false_or, Bool.and_eq_true, beq_iff_eq] at hrule
  obtain ⟨hlast, hfront⟩ := hrule
  have hne : children ≠ [] := by
    rintro rfl
    cases hlast
  obtain ⟨front, last, rfl⟩ := (List.eq_nil_or_concat' children).resolve_left hne
  rw [List.map_append, List.map_singleton, List.getLast?_concat] at hlast
  rw [List.map_append, List.map_singleton, List.dropLast_concat] at hfront
  obtain ⟨a, hword⟩ : ∃ a, last.word = [(105, a)] := by
    cases last with
    | token t a =>
      cases hlast
      exact ⟨a, ParseTree.word_token _ _⟩
    | node => cases hlast
  refine ⟨front.flatMap ParseTree.word, a, ?_, ?_⟩
  · rw [List.flatMap_append, List.flatMap_singleton, hword]
  · rw [List.map_flatMap, List.mem_flatMap]
    rintro ⟨T, hT, hmem⟩
    have hX := List.all_eq_true.mp hfront T.root (List.mem_map_of_mem hT)
    simp only [Bool.and_eq_true, bne_iff_ne] at hX
    exact semicolon_not_mem (hvalid T (List.mem_append_left _ hT)) hX hmem

/-- What is read of a text are the tokens of some matches; at its end the semicolon need not be there. -/
theorem Derivation.reads {sql rest : Bytes} {word : List (Nat × ParseNode × Location)} {pNode : ParseNode}
    {children : List SqlTree} (h : Derivation sql word pNode children) (htook : Took sql rest word) :
    ∃ ps, pieces (sql.takeWhile (· != 0)) = ps ++ pieces rest ∧
      (SpelledBy sql ps word ∨ rest = [] ∧ ∃ word' a, word = word' ++ [(105, a)] ∧ SpelledBy sql ps word') := by
  obtain ⟨ps, read, ends, hread, rfl, hreads, hends, hrest⟩ := htook
  refine ⟨ps, hread.pieces_eq, ?_⟩
  obtain ⟨word', a, hword, hno⟩ := h.closes
  obtain rfl | ⟨front, b, rfl⟩ := List.eq_nil_or_concat' ends
  · rw [List.append_nil]
    exact .inl hreads
  · rw [← List.append_assoc] at hword
    obtain ⟨rfl, hlast⟩ := List.append_inj' hword rfl
    have hnil : front = [] := by
      by_contra hne
      obtain ⟨c, cs, rfl⟩ := List.exists_cons_of_ne_nil hne
      have hc : c.1 = 105 := hends c (by simp)
      exact hno (List.mem_map.mpr ⟨c, by simp, hc⟩)
    subst hnil
    obtain rfl : b = (105, a) := List.singleton_inj.mp hlast
    exact .inr ⟨hrest.resolve_left (by simp), read, a, rfl, hreads⟩

/-- What is parsed is a sentence of the grammar: the matches that are read spell it, up to its semicolon and no
further, each token has the value and the place that the scanner gives it, and the tree is what the actions make
of a derivation of it, rewritten. -/
theorem parse_derives {sql : Bytes} {s s' : ParseState} (h : parse sql s = .ok () s') :
    ∃ ps word pNode children current, pieces (sql.takeWhile (· != 0)) = ps ++ pieces s'.input ∧
      (SpelledBy sql ps word ∨ s'.input = [] ∧ ∃ word' a, word = word' ++ [(105, a)] ∧ SpelledBy sql ps word') ∧
      word.map Prod.fst ∈ sqlGrammar.language ∧ Derivation sql word pNode children ∧
      QueryRewritter.rewrite pNode current = .ok s'.m_pResult s'.m_iCurrent := by
  obtain ⟨word, pNode, children, -, current, hderivation, -, htook, hrewrite⟩ :=
    derivation_of_parse (J := fun _ _ => True) trivial (fun _ _ _ _ _ _ _ _ => trivial) h
  obtain ⟨ps, hpieces, hword⟩ := hderivation.reads htook
  exact ⟨ps, word, pNode, children, current, hpieces, hword, hderivation.mem_language, hderivation, hrewrite⟩

def someConditions : Bytes := bytes "delete from t where a = 1 + 2 * 3 - 4 and b = 'x\\ty'"

theorem makesPlain_someConditions : makesPlain (parseSql someConditions .fresh) = true := by decide +kernel

/-- A text with names, numbers and a string with an escape. -/
theorem parse_derives_someConditions : ∃ s', parse someConditions .fresh = .ok () s' ∧
    ∃ ps word pNode children current, pieces (someConditions.takeWhile (· != 0)) = ps ++ pieces s'.input ∧
      (SpelledBy someConditions ps word ∨
        s'.input = [] ∧ ∃ word' a, word = word' ++ [(105, a)] ∧ SpelledBy someConditions ps word') ∧
      word.map Prod.fst ∈ sqlGrammar.language ∧ Derivation someConditions word pNode children ∧
      QueryRewritter.rewrite pNode current = .ok s'.m_pResult s'.m_iCurrent := by
  obtain ⟨s', h⟩ := parse_of_makesPlain makesPlain_someConditions
  exact ⟨s', h, parse_derives h⟩

end LevelPgServer.SqlParser
