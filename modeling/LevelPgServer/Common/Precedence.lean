import LevelPgServer.Common.ParsedTrees

/-! The parser groups operators by their levels, and those of one level from the left. -/

namespace LevelPgServer.SqlParser

open ParseNode Lalr

def operatorLevels : List (List SqlSymbol) := [
  [tok .OR],
  [tok .XOR],
  [tok .ANDOP],
  [tok .IN, tok .IS, tok .LIKE],
  [tok .NOT, mark '!'],
  [mark '&'],
  [tok .COMP_LE, tok .COMP_LT, tok .COMP_EQ, tok .COMP_GT, tok .COMP_GE, tok .COMP_NE],
  [mark '|'],
  [mark '+', mark '-'],
  [mark '*', mark '/', mark '%', MOD],
  [mark '^']]

def level (X : SqlSymbol) : Nat := operatorLevels.findIdx fun level => level.contains X

/-- The level of a rule that ends with an operand: the one of its operator, or for a sign the highest. -/
def ruleLevel (r : Nat) : Nat :=
  match production r with
  | some ⟨_, [_, X, _]⟩ => level X
  | _ => operatorLevels.length

/-- The rules that end with an operand. -/
def endsOpen (r : Nat) : Bool :=
  match production r with
  | some R => R.input == .expr && Nat.ble 2 R.output.length && R.output.getLast? == some (.nonterminal .expr)
  | none => false

/-- The operators on the left edge of an expression: nothing encloses what stands in front of them. -/
inductive LeftOperator : SqlTree → Nat → Prop
  | here {r t : Nat} {a b : ParseNode × Location} {l : SqlTree} {rest : List SqlTree}
      (hl : l.root = .nonterminal .expr) : LeftOperator (.node r .expr a (l :: .token t b :: rest)) t
  | left {r t : Nat} {a : ParseNode × Location} {l : SqlTree} {rest : List SqlTree} (hl : l.root = .nonterminal .expr)
      (h : LeftOperator l t) : LeftOperator (.node r .expr a (l :: rest)) t

/-- The rules on the right edge of an expression: nothing encloses their last operands. -/
inductive RightRule : SqlTree → Nat → Prop
  | here {r : Nat} {a : ParseNode × Location} {front : List SqlTree} {e : SqlTree} (hne : front ≠ [])
      (he : e.root = .nonterminal .expr) : RightRule (.node r .expr a (front ++ [e])) r
  | right {r q : Nat} {a : ParseNode × Location} {front : List SqlTree} {e : SqlTree} (hne : front ≠ [])
      (he : e.root = .nonterminal .expr) (h : RightRule e q) : RightRule (.node r .expr a (front ++ [e])) q

/-- What stands in front of an operator binds at least as strongly, and what stands behind it more strongly. -/
inductive Grouped : SqlTree → Prop
  | token (t : Nat) (a : ParseNode × Location) : Grouped (.token t a)
  | node {r : Nat} {B : Nonterminal} {a : ParseNode × Location} {children : List SqlTree}
      (hleft : ∀ l t b rest, B = .expr → children = l :: .token t b :: rest → l.root = .nonterminal .expr →
        ∀ q, RightRule l q → level (.terminal t) ≤ ruleLevel q)
      (hright : ∀ front e, B = .expr → children = front ++ [e] → front ≠ [] → e.root = .nonterminal .expr →
        ∀ t, LeftOperator e t → ruleLevel r < level (.terminal t))
      (hchildren : ∀ T ∈ children, Grouped T) : Grouped (.node r B a children)

/-! The tables decide between an operator and the rule in front of it by their levels. -/

/-- The state behind the right side of a rule that ends with an operand. -/
def stateBehind (r : Nat) : Nat := yydefact.idxOf r

def openRules : List Nat := (List.range 87).filter endsOpen

def operators : List Nat := productions.filterMap fun R =>
  match R with
  | ⟨.expr, .nonterminal .expr :: .terminal t :: _⟩ => some t
  | _ => none

theorem mem_openRules {r : Nat} (h : endsOpen r = true) : r ∈ openRules := by
  refine List.mem_filter.mpr ⟨List.mem_range.mpr ?_, h⟩
  cases hrule : production r with
  | none =>
    rw [endsOpen, hrule] at h
    cases h
  | some R => exact production_lt hrule

set_option maxRecDepth 4000 in
theorem state_of_openRule {s r : Nat} (h : defaultRule s = some r) (hr : endsOpen r = true) : s = stateBehind r := by
  have hall : openRules.all (fun r => (List.range 161).all fun s =>
      !([r].contains (yydefact.getD s 0)) || [stateBehind r].contains s) = true := rfl
  have hstates := List.all_eq_true.mp hall r (mem_openRules hr)
  exact List.mem_singleton.mp (defaultRule_mem hstates h (List.mem_singleton.mpr rfl))

set_option maxRecDepth 4000 in
theorem level_of_shift {r t : Nat} (hr : endsOpen r = true) (ht : t ∈ operators)
    (h : shift (stateBehind r) t ≠ none) : ruleLevel r < level (.terminal t) := by
  have hall : openRules.all (fun r => operators.all fun t =>
      shift (stateBehind r) t == none || decide (ruleLevel r < level (.terminal t))) = true := rfl
  have hrow := List.all_eq_true.mp (List.all_eq_true.mp hall r (mem_openRules hr)) t ht
  simpa [h] using hrow

set_option maxRecDepth 4000 in
theorem level_of_no_shift {r t : Nat} (hr : endsOpen r = true) (ht : t ∈ operators)
    (h : shift (stateBehind r) t = none) : level (.terminal t) ≤ ruleLevel r := by
  have hall : openRules.all (fun r => operators.all fun t =>
      shift (stateBehind r) t != none || decide (level (.terminal t) ≤ ruleLevel r)) = true := rfl
  have hrow := List.all_eq_true.mp (List.all_eq_true.mp hall r (mem_openRules hr)) t ht
  simpa [h] using hrow

section Edges

variable {reads : Nat → ParseNode × Location → Prop} {builds : Nat → Rhs → ParseNode × Location → Prop} {T : SqlTree}

theorem endsOpen_of_output {r : Nat} {Xs : List SqlSymbol}
    (h : production r = some ⟨.expr, Xs ++ [.nonterminal .expr]⟩) (hXs : Xs ≠ []) : endsOpen r = true := by
  have hlen : 2 ≤ (Xs ++ [.nonterminal .expr] : List SqlSymbol).length := by
    rw [List.length_append, List.length_singleton]
    exact Nat.succ_le_succ (List.length_pos_iff.mpr hXs)
  rw [endsOpen, h]
  simp only [beq_self_eq_true, Bool.true_and, List.getLast?_concat, Bool.and_true]
  exact Nat.ble_eq.mpr hlen

theorem operator_of_output {r t : Nat} {Xs : List SqlSymbol}
    (h : production r = some ⟨.expr, .nonterminal .expr :: .terminal t :: Xs⟩) : t ∈ operators :=
  List.mem_filterMap.mpr ⟨_, List.mem_toFinset.mp (production_mem h), rfl⟩

theorem RightRule.endsOpen {q : Nat} (h : RightRule T q) (hvalid : T.Valid production reads builds) :
    endsOpen q = true := by
  induction h with
  | here hne he =>
    cases hvalid with
    | node hrule =>
      rw [List.map_append, List.map_singleton, he] at hrule
      exact endsOpen_of_output hrule (by simpa using hne)
  | right _ _ _ ih =>
    cases hvalid with
    | node _ _ hchildren => exact ih (hchildren _ (List.mem_append_right _ (List.mem_singleton.mpr rfl)))

theorem LeftOperator.mem_operators {t : Nat} (h : LeftOperator T t) (hvalid : T.Valid production reads builds) :
    t ∈ operators := by
  induction h with
  | here hl =>
    cases hvalid with
    | node hrule =>
      rw [List.map_cons, List.map_cons, hl] at hrule
      exact operator_of_output hrule
  | left _ _ ih =>
    cases hvalid with
    | node _ _ hchildren => exact ih (hchildren _ List.mem_cons_self)

end Edges

/-! What the trees on the stack know of their neighbours. -/

/-- Each operator on the stack has been shifted where the rules on the edge in front of it do not go on with it. -/
inductive Laid : List (Frame ParseNode Location) → List SqlTree → Prop
  | bottom (f : Frame ParseNode Location) : Laid [f] []
  | token {f g : Frame ParseNode Location} {fs : List (Frame ParseNode Location)} {t : Nat} {a : ParseNode × Location}
      {Ts : List SqlTree} (hshift : shift g.state t = some f.state)
      (hclosed : ∀ T ∈ Ts.head?, ∀ q, RightRule T q → shift (stateBehind q) t = none) (h : Laid (g :: fs) Ts) :
      Laid (f :: g :: fs) (.token t a :: Ts)
  | node {f g : Frame ParseNode Location} {fs : List (Frame ParseNode Location)} {r : Nat} {B : Nonterminal}
      {a : ParseNode × Location} {children Ts : List SqlTree} (hgoto : B = .expr → f.state = goto g.state 114)
      (hleft : ∀ t, LeftOperator (.node r B a children) t → shift f.state t ≠ none) (h : Laid (g :: fs) Ts) :
      Laid (f :: g :: fs) (.node r B a children :: Ts)

theorem Laid.drop {fs : List (Frame ParseNode Location)} {popped kept : List SqlTree} (h : Laid fs (popped ++ kept)) :
    Laid (fs.drop popped.length) kept := by
  induction popped generalizing fs with
  | nil => exact h
  | cons T popped ih =>
    rw [List.cons_append] at h
    cases h with
    | token _ _ h => exact ih h
    | node _ _ h => exact ih h

theorem Laid.operand {fs : List (Frame ParseNode Location)} {l : SqlTree} {kept : List SqlTree}
    (hl : l.root = .nonterminal .expr) (h : Laid fs (l :: kept)) :
    ∃ f base rest, fs = f :: base :: rest ∧ f.state = goto base.state 114 ∧
      (∀ t, LeftOperator l t → shift f.state t ≠ none) ∧ Laid (base :: rest) kept := by
  cases h with
  | token => cases hl
  | node hgoto hleft h =>
    refine ⟨_, _, _, rfl, hgoto ?_, hleft, h⟩
    exact Symbol.nonterminal.inj hl

/-- The trees are grouped, and no rule on the right edge of the top one goes on with the token read ahead. -/
structure Grouping (c : SqlConfig) (Ts : List SqlTree) : Prop where
  laid : Laid c.stack Ts
  closed : ∀ T ∈ Ts.head?, ∀ q, RightRule T q → ∀ t, (∀ t' ∈ c.lookahead, t' = t) → shift (stateBehind q) t = none
  grouped : ∀ T ∈ Ts, Grouped T

theorem shift_of_consistent {s : Nat} (h : sqlTables.consistent s = true) (t : Nat) : shift s t = none := by
  unfold shift
  rw [if_pos (of_decide_eq_true h)]

theorem no_shift_of_reduce {c : SqlConfig} {r : Nat} (h : sqlTables.todo c = .reduce r) {top : Frame ParseNode Location}
    {below' : List (Frame ParseNode Location)} (hstack : c.stack = top :: below') {t : Nat}
    (ht : ∀ t' ∈ c.lookahead, t' = t) : shift top.state t = none := by
  unfold todo at h
  rw [hstack] at h
  dsimp only at h
  split at h
  case isTrue => cases h
  case isFalse =>
    split at h
    case isTrue => cases h
    case isFalse =>
      split at h
      case isTrue hconsistent => exact shift_of_consistent hconsistent t
      case isFalse =>
        cases hlook : c.lookahead with
        | none =>
          rw [hlook] at h
          cases h
        | some t' =>
          rw [hlook] at h
          obtain rfl := ht t' hlook
          dsimp only at h
          split at h
          · cases h
          · next hnone => exact hnone

variable {c c' : SqlConfig} {Ts Ts' : List SqlTree}

theorem lhs_of_expr {r : Nat} {Xs : List SqlSymbol} (h : production r = some ⟨.expr, Xs⟩) : yyr1.getD r 0 = 114 := by
  have hall : (List.range 87).all (fun r => (production r).map ContextFreeRule.input != some .expr ||
      yyr1.getD r 0 == 114) = true := by decide
  simpa [h] using List.all_eq_true.mp hall r (List.mem_range.mpr (production_lt h))

theorem Grouping.reduce {sql : Bytes} {r : Nat} {B : Nonterminal} {base : Frame ParseNode Location}
    {rest : List (Frame ParseNode Location)} {v : ParseNode} {loc : Location} {env : ParseState}
    {children kept : List SqlTree} (h : Grouping c (children.reverse ++ kept))
    (hvalid : ∀ T ∈ children, T.Valid production anyToken (Builds sql)) (htodo : sqlTables.todo c = .reduce r)
    (hdrop : c.stack.drop children.length = base :: rest)
    (hrule : production r = some ⟨B, children.map ParseTree.root⟩) :
    Grouping { stack := ⟨goto base.state (yyr1.getD r 0), v, loc⟩ :: base :: rest, lookahead := c.lookahead, env }
      (.node r B (v, loc) children :: kept) := by
  obtain ⟨top, below', hstack, -, hreduce⟩ := todo_reduce htodo
  have hkept := h.laid.drop
  rw [List.length_reverse, hdrop] at hkept
  have hlast : ∀ front e, B = .expr → children = front ++ [e] → front ≠ [] → e.root = .nonterminal .expr →
      endsOpen r = true ∧ top.state = stateBehind r := by
    rintro front e rfl rfl hne he
    rw [List.map_append, List.map_singleton, he] at hrule
    have hopen := endsOpen_of_output hrule (by simpa using hne)
    exact ⟨hopen, state_of_openRule hreduce hopen⟩
  have hfirst : ∀ l others, B = .expr → children = l :: others → l.root = .nonterminal .expr →
      ∃ f : Frame ParseNode Location, f.state = goto base.state (yyr1.getD r 0) ∧
        (∀ t, LeftOperator l t → shift f.state t ≠ none) ∧
        ∀ t b others', others = .token t b :: others' →
          shift f.state t ≠ none ∧ ∀ q, RightRule l q → shift (stateBehind q) t = none := by
    rintro l others rfl rfl hl
    have hlaid := h.laid
    rw [List.reverse_cons, List.append_assoc, List.singleton_append] at hlaid
    have hl' := hlaid.drop
    rw [List.length_reverse] at hl'
    obtain ⟨f, base', rest', hfs, hstate, hleft, -⟩ := hl'.operand hl
    have htail : c.stack.drop (others.length + 1) = base' :: rest' := by
      rw [← List.drop_drop, hfs]
      rfl
    obtain ⟨rfl, rfl⟩ := List.cons.inj (htail.symm.trans hdrop)
    refine ⟨f, by rw [hstate, lhs_of_expr hrule], hleft, ?_⟩
    rintro t b others' rfl
    rw [List.reverse_cons, List.append_assoc, List.singleton_append] at hlaid
    have ht := hlaid.drop
    rw [List.length_reverse] at ht
    generalize hgs : c.stack.drop others'.length = gs at ht
    cases ht with
    | @token f' g fs _ _ _ hshift hclosed _ =>
      have hfs' : c.stack.drop (others'.length + 1) = g :: fs := by
        rw [← List.drop_drop, hgs]
        rfl
      obtain ⟨rfl, -⟩ := List.cons.inj (hfs'.symm.trans hfs)
      exact ⟨by rw [hshift]; simp, hclosed l rfl⟩
  refine ⟨.node (fun hB => ?_) ?_ hkept, ?_, ?_⟩
  · subst hB
    rw [lhs_of_expr hrule]
  · intro t ht
    generalize hT : ParseTree.node r B (v, loc) children = T at ht
    cases ht with
    | here hl =>
      cases hT
      obtain ⟨f, hf, -, hoperator⟩ := hfirst _ _ rfl rfl hl
      change shift (goto base.state (yyr1.getD r 0)) t ≠ none
      rw [← hf]
      exact (hoperator t _ _ rfl).1
    | left hl ht =>
      cases hT
      obtain ⟨f, hf, hleft, -⟩ := hfirst _ _ rfl rfl hl
      change shift (goto base.state (yyr1.getD r 0)) t ≠ none
      rw [← hf]
      exact hleft t ht
  · intro T hT q hq t ht
    obtain rfl := Option.some.inj hT
    generalize hT : ParseTree.node r B (v, loc) children = T at hq
    cases hq with
    | here hne he =>
      cases hT
      rw [← (hlast _ _ rfl rfl hne he).2]
      exact no_shift_of_reduce htodo hstack ht
    | right hne he hq =>
      cases hT
      refine h.closed _ ?_ q hq t ht
      simp
  · intro T hT
    obtain rfl | hT := List.mem_cons.mp hT
    · refine .node ?_ ?_ fun T hT => h.grouped T (List.mem_append_left _ (List.mem_reverse.mpr hT))
      · intro l t b others hB hchildren hl q hq
        obtain ⟨f, -, -, hoperator⟩ := hfirst l _ hB hchildren hl
        have hno := (hoperator t b others rfl).2 q hq
        have hmem : t ∈ operators := by
          rw [hB, hchildren, List.map_cons, List.map_cons, hl] at hrule
          exact operator_of_output hrule
        refine level_of_no_shift (hq.endsOpen (hvalid l ?_)) hmem hno
        rw [hchildren]
        exact List.mem_cons_self
      · intro front e hB hchildren hne he t ht
        obtain ⟨hopen, hstate⟩ := hlast front e hB hchildren hne he
        have hmem : e ∈ children := by
          rw [hchildren]
          exact List.mem_append_right _ (List.mem_singleton.mpr rfl)
        refine level_of_shift hopen (ht.mem_operators (hvalid e hmem)) ?_
        have hlaid := h.laid
        rw [hchildren, List.reverse_append, List.reverse_singleton, List.append_assoc, List.singleton_append] at hlaid
        obtain ⟨f, base', rest', hfs, -, hleft, -⟩ := hlaid.operand he
        obtain ⟨rfl, -⟩ := List.cons.inj (hstack.symm.trans hfs)
        rw [← hstate]
        exact hleft t ht
    · exact h.grouped T (List.mem_append_right _ hT)

theorem Grouping.step {sql : Bytes} (hstands : Stands (sqlReading sql) c Ts) (h : Grouping c Ts)
    (hstep : step sqlTables sqlActions c = .run c') (hgrows : Grows sqlTables production c Ts c' Ts') :
    Grouping c' Ts' := by
  cases hgrows with
  | lex htodo =>
    obtain ⟨-, -, -, -, hlook⟩ := todo_lex htodo
    refine ⟨h.laid, fun T hT q hq t _ => h.closed T hT q hq t fun t' ht' => ?_, h.grouped⟩
    rw [hlook] at ht'
    cases ht'
  | @shift s t v l htodo hlook =>
    obtain ⟨top, below', t', hstack, -, hlook', hshift⟩ := todo_shift htodo
    obtain rfl := Option.some.inj (hlook.symm.trans hlook')
    refine ⟨?_, ?_, ?_⟩
    · have hlaid := h.laid
      rw [hstack] at hlaid ⊢
      refine .token hshift (fun T hT q hq => h.closed T hT q hq t fun t' ht' => ?_) hlaid
      exact Option.some.inj (ht'.symm.trans hlook)
    · intro T hT q hq
      obtain rfl := Option.some.inj hT
      cases hq
    · intro T hT
      obtain rfl | hT := List.mem_cons.mp hT
      · exact .token t _
      · exact h.grouped T hT
  | @reduce r R base rest v l env popped kept htodo hdrop hrule htrees hlen hroots =>
    subst htrees
    have hvalid : ∀ T ∈ popped.reverse, T.Valid production anyToken (Builds sql) := fun T hT =>
      hstands.valid T (List.mem_append_left _ (List.mem_reverse.mp hT))
    refine Grouping.reduce ?_ hvalid htodo ?_ ?_
    · rwa [List.reverse_reverse]
    · rwa [List.length_reverse, hlen]
    · rw [hrule, hroots]

/-- The parser finds a derivation in which the operators of each expression are grouped by their levels, and
those of one level from the left. -/
theorem parse_grouped {sql : Bytes} {s s' : ParseState} (h : parse sql s = .ok () s') :
    ∃ word pNode children current, Took sql s'.input word ∧ Derivation sql word pNode children ∧
      (∀ T ∈ children, Grouped T) ∧ QueryRewritter.rewrite pNode current = .ok s'.m_pResult s'.m_iCurrent := by
  have hstart : Grouping (start (opened sql s)) [] := by
    refine ⟨.bottom _, fun T hT => ?_, fun T hT => absurd hT List.not_mem_nil⟩
    cases hT
  obtain ⟨word, pNode, children, c, current, hderivation, hJ, htook, hrewrite⟩ :=
    derivation_of_parse (J := Grouping) hstart (fun c Ts c' Ts' hstands hJ hstep => hJ.step hstands hstep) h
  exact ⟨word, pNode, children, current, htook, hderivation, fun T hT =>
    hJ.grouped T (List.mem_reverse.mpr hT), hrewrite⟩

theorem parse_grouped_someConditions : ∃ s', parse someConditions .fresh = .ok () s' ∧
    ∃ word pNode children current, Took someConditions s'.input word ∧ Derivation someConditions word pNode children ∧
      (∀ T ∈ children, Grouped T) ∧ QueryRewritter.rewrite pNode current = .ok s'.m_pResult s'.m_iCurrent := by
  obtain ⟨s', h⟩ := parse_of_makesPlain makesPlain_someConditions
  exact ⟨s', h, parse_grouped h⟩

end LevelPgServer.SqlParser
