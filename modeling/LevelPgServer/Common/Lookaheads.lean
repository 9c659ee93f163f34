import LevelPgServer.Common.Precedence
import LevelPgServer.Lib.FollowSets

/-! What can follow the parts of a statement, and where the tables let them stand. -/

namespace LevelPgServer.SqlParser

open ParseNode Lalr

def number (B : Nonterminal) : Nat := 111 + nonterminals.idxOf B

def exprStarts : List Nat := [3, 4, 5, 6, 7, 9, 10, 12, 31, 32, 46, 107]

def sqlStarts : Nonterminal → List Nat
  | .sql_stmt => [43, 60, 61, 66, 70, 77, 88]
  | .get_stmt => [43, 61, 77, 88]
  | .stmt => [43, 60, 61, 70, 77, 88]
  | .delete_stmt => [60]
  | .values_stmt => [88]
  | .insert_stmt => [70]
  | .show_tables_stmt => [43]
  | .desc_table_stmt => [61]
  | .opt_col_names | .value_list => [107]
  | .column_list | .table_factor => [3]
  | .table_or_query => [3, 107]
  | .opt_alias => [51]
  | .select_stmt => [77]
  | .opt_where => [78]
  | .opt_limit => [73]
  | .opt_groupby => [68]
  | .opt_asc_desc => [52, 61]
  | .opt_having => [69]
  | .opt_orderby => [76]
  | .select_expr_list => 33 :: exprStarts
  | .expr | .val_list | .row_value | .sort_list | .projection => exprStarts

def sqlFollow : Nonterminal → List Nat
  | .sql_stmt => [0]
  | .stmt | .insert_stmt | .delete_stmt => [105]
  | .get_stmt | .select_stmt | .values_stmt | .show_tables_stmt | .desc_table_stmt | .opt_limit => [105, 108]
  | .expr => operators ++ [51, 52, 61, 67, 68, 69, 73, 76, 105, 108, 109]
  | .val_list => [108]
  | .opt_col_names => [77, 88]
  | .value_list => [105, 108, 109]
  | .row_value => [108, 109]
  | .column_list => [69, 73, 76, 105, 108, 109]
  | .table_or_query => [51, 68, 69, 73, 76, 78, 105, 108]
  | .opt_alias => [68, 69, 73, 76, 78, 105, 108]
  | .opt_where => [68, 69, 73, 76, 105, 108]
  | .opt_groupby => [69, 73, 76, 105, 108]
  | .opt_having => [73, 76, 105, 108]
  | .opt_orderby => [73, 105, 108]
  | .sort_list | .opt_asc_desc => [73, 105, 108, 109]
  | .projection | .select_expr_list => [67, 109]
  | .table_factor => [51, 68, 69, 73, 76, 77, 78, 88, 105, 107, 108]

def sqlSets : FollowSets production where
  nullable B := [.opt_col_names, .opt_alias, .opt_where, .opt_limit, .opt_groupby, .opt_asc_desc, .opt_having,
    .opt_orderby].contains B
  starts := sqlStarts
  follow := sqlFollow

/-- What can stand behind the first of some symbols of a rule can follow it. -/
def followed (us : List Nat) : List SqlSymbol → Bool
  | .nonterminal C :: rest => (sqlSets.firsts rest us).all (sqlFollow C).contains
  | _ => true

theorem sqlSets_closed : sqlSets.Closed where
  nullable_rule r R h := by
    have hall : productions.all (fun R => !sqlSets.vanish R.output || sqlSets.nullable R.input) = true := by
      decide
    have hR := List.all_eq_true.mp hall R (List.mem_toFinset.mp (production_mem h))
    intro hvanish
    simpa [hvanish] using hR
  starts_rule r R h := by
    have hall : productions.all (fun R => (sqlSets.firsts R.output []).all (sqlStarts R.input).contains) = true := by
      decide
    have hR := List.all_eq_true.mp hall R (List.mem_toFinset.mp (production_mem h))
    intro t ht
    exact List.contains_iff_mem.mp (List.all_eq_true.mp hR t ht)
  follow_rule r R h front C rest houtput := by
    have hall : productions.all (fun R => R.output.tails.all (followed (sqlFollow R.input))) = true := by decide
    have hR := List.all_eq_true.mp hall R (List.mem_toFinset.mp (production_mem h))
    have hsuffix : .nonterminal C :: rest ∈ R.output.tails := by
      rw [List.mem_tails, houtput]
      exact List.suffix_append _ _
    intro t ht
    exact List.contains_iff_mem.mp (List.all_eq_true.mp (List.all_eq_true.mp hR _ hsuffix) t ht)

/-! Where the tables let a symbol stand. -/

/-- Whether a nonterminal can be read in a state. -/
def expects (s : Nat) (B : Nonterminal) : Bool :=
  stateSymbol (goto s (number B)) == .nonterminal B && (below (goto s (number B))).contains s

/-- The states in which an expression is read that no operator stands in front of. -/
def freeStates : List Nat := [6, 35, 39, 47, 71, 75, 84, 107, 108, 118, 126, 139, 145, 154]

/-- The state behind some symbols, if they can be read in a state. With `edge` the last of them may be an operand. -/
def walk (edge : Bool) : Nat → List SqlSymbol → Option Nat
  | s, [] => some s
  | s, .terminal t :: Xs => (shift s t).bind fun s' => walk edge s' Xs
  | s, .nonterminal C :: Xs =>
    if expects s C && C != .sql_stmt && (C != .expr || edge && Xs.isEmpty || freeStates.contains s) then
      walk edge (goto s (number C)) Xs
    else none

def endsWith (r : Nat) (p : Option Nat) : Bool :=
  match p with
  | some p => p != YYFINAL && defaultRule p == some r
  | none => false

theorem endsWith_some {r : Nat} {p : Option Nat} (h : endsWith r p = true) :
    ∃ q, p = some q ∧ q ≠ YYFINAL ∧ defaultRule q = some r := by
  cases p with
  | none => cases h
  | some q =>
    rw [endsWith, Bool.and_eq_true] at h
    exact ⟨q, rfl, by simpa using h.1, by simpa using h.2⟩

/-- The right side of a rule can be read in a state; with an operand in front if its operator can. -/
def readsRule (s r : Nat) (R : ContextFreeRule Nat Nonterminal) : Bool :=
  match R with
  | ⟨.expr, .nonterminal .expr :: .terminal t :: Xs⟩ =>
    match shift (goto s 114) t with
    | some s' => endsWith r (walk true s' Xs)
    | none => true
  | ⟨B, Xs⟩ => endsWith r (walk (B == .expr) s Xs)

/-- The right sides of all rules of the nonterminal that leads to a state can be read below it. -/
def readsBelow (q : Nat) : Bool :=
  match stateSymbol q with
  | .terminal _ => true
  | .nonterminal B => (List.range 87).all fun r =>
    match production r with
    | some R => R.input != B || (below q).all fun s => goto s (number B) != q || readsRule s r R
    | none => true

theorem states_read : (List.range 161).all readsBelow = true := by decide +kernel

theorem reads_of_expects {s r : Nat} {R : ContextFreeRule Nat Nonterminal} (hR : production r = some R)
    (h : expects s R.input = true) : readsRule s r R = true := by
  unfold expects at h
  obtain ⟨hsymbol, hbelow⟩ := (Bool.and_eq_true _ _).mp h
  have hlt : goto s (number R.input) < 161 := by
    have hstos : yystos.length = 161 := rfl
    by_contra hge
    rw [stateSymbol, List.getD_eq_default _ _ (by omega)] at hsymbol
    cases hsymbol
  have hstate := List.all_eq_true.mp states_read _ (List.mem_range.mpr hlt)
  unfold readsBelow at hstate
  rw [beq_iff_eq.mp hsymbol] at hstate
  have hr := List.all_eq_true.mp hstate r (List.mem_range.mpr (production_lt hR))
  rw [hR] at hr
  simp only [bne_self_eq_false, Bool.false_or] at hr
  simpa using List.all_eq_true.mp hr s (List.contains_iff_mem.mp hbelow)

theorem shift_free {s t : Nat} (hs : s ∈ freeStates) (ht : t ∈ operators) : shift (goto s 114) t ≠ none := by
  have hall : freeStates.all (fun s => operators.all fun t => (shift (goto s 114) t).isSome) = true := by decide
  have hsome := List.all_eq_true.mp (List.all_eq_true.mp hall s hs) t ht
  intro hnone
  rw [hnone] at hsome
  cases hsome

set_option maxRecDepth 4000 in
theorem shift_lt {s t s' : Nat} (h : shift s t = some s') : t < 161 := by
  obtain ⟨row, -, -, hlook⟩ := shift_row h
  have hall : entries.all (fun e => decide (e.1.1 < 161)) = true := rfl
  obtain ⟨i, -, hentry⟩ := entries_all hall hlook
  exact Int.ofNat_lt.mp (of_decide_eq_true hentry)

set_option maxRecDepth 4000 in
theorem shift_behind {q u : Nat} (hq : endsOpen q = true) (hu : u ∉ operators) : shift (stateBehind q) u = none := by
  have hall : openRules.all (fun q => (List.range 161).all fun u =>
      operators.contains u || shift (stateBehind q) u == none) = true := rfl
  by_contra hshift
  obtain ⟨s', hs'⟩ := Option.ne_none_iff_exists'.mp hshift
  have hrow := List.all_eq_true.mp (List.all_eq_true.mp hall q (mem_openRules hq)) u (List.mem_range.mpr (shift_lt hs'))
  rw [Bool.or_eq_true, or_iff_right (by simpa using hu)] at hrow
  exact hshift (beq_iff_eq.mp hrow)

/-- A state that reduces its rule shifts nothing that can follow its left side, unless it is an operator. -/
def quiet (s : Nat) : Bool :=
  match defaultRule s with
  | none => true
  | some r =>
    match production r with
    | none => true
    | some R => (sqlFollow R.input).all fun u => shift s u == none || endsOpen r && operators.contains u

theorem states_quiet : (List.range 161).all quiet = true := by decide +kernel

theorem shift_follow {s r u : Nat} {R : ContextFreeRule Nat Nonterminal} (hreduce : defaultRule s = some r)
    (hR : production r = some R) (hu : u ∈ sqlFollow R.input) :
    shift s u = none ∨ endsOpen r = true ∧ u ∈ operators := by
  by_cases hs : s < 161
  · have hstate := List.all_eq_true.mp states_quiet s (List.mem_range.mpr hs)
    unfold quiet at hstate
    rw [hreduce] at hstate
    dsimp only at hstate
    rw [hR] at hstate
    simpa using List.all_eq_true.mp hstate u hu
  · have hdefact : yydefact.length = 161 := rfl
    rw [defaultRule, List.getD_eq_default _ _ (by omega)] at hreduce
    cases hreduce

/-- An expression that is no operand of its rule has no operator behind it. -/
def enclosed (B : Nonterminal) : List SqlSymbol → Bool
  | .nonterminal .expr :: rest =>
    B == .expr && rest.isEmpty || (sqlSets.firsts rest (sqlFollow B)).all fun u => !operators.contains u
  | _ => true

/-- The first operand of a rule has an operator behind it. -/
def hasOperator : List SqlSymbol → Bool
  | .nonterminal .expr :: .terminal _ :: _ => true
  | .nonterminal .expr :: _ => false
  | _ => true

theorem operator_of_operand {r : Nat} {Xs : List SqlSymbol}
    (h : production r = some ⟨.expr, .nonterminal .expr :: Xs⟩) : ∃ t Xs', Xs = .terminal t :: Xs' := by
  have hall : productions.all (fun R => R.input != .expr || hasOperator R.output) = true := by decide
  have hrule := List.all_eq_true.mp hall _ (List.mem_toFinset.mp (production_mem h))
  simp only [bne_self_eq_false, Bool.false_or] at hrule
  cases Xs with
  | nil => cases hrule
  | cons X Xs =>
    cases X with
    | terminal t => exact ⟨t, Xs, rfl⟩
    | nonterminal => cases hrule

theorem sizes_of_rule {r : Nat} {R : ContextFreeRule Nat Nonterminal} (h : production r = some R) :
    yyr2.getD r 0 = R.output.length ∧ yyr1.getD r 0 = number R.input := by
  have hall : (List.range 87).all (fun r => (production r).all fun R =>
      yyr2.getD r 0 == R.output.length && yyr1.getD r 0 == number R.input) = true := by decide
  have hrow := List.all_eq_true.mp hall r (List.mem_range.mpr (production_lt h))
  rw [h] at hrow
  simpa using hrow

theorem statement_of_accepts {r : Nat} {R : ContextFreeRule Nat Nonterminal} (h : production r = some R)
    (hr : r = 2 ∨ r = 3) : R.input = .sql_stmt := by
  have hall : ∀ r ∈ [2, 3], (production r).map ContextFreeRule.input = some .sql_stmt := by decide
  have hinput := hall r (by simpa using hr)
  rw [h] at hinput
  exact Option.some.inj hinput

end LevelPgServer.SqlParser
