import LevelPgServer.Common.Statements
import LevelPgServer.Lib.LalrTrees

/-! The grammar of the SQL texts, and that the generated tables stand for it. -/

namespace LevelPgServer.SqlParser

inductive Nonterminal
  | sql_stmt | get_stmt | stmt | expr | val_list | delete_stmt | values_stmt | insert_stmt | show_tables_stmt
  | desc_table_stmt | opt_col_names | value_list | row_value | column_list | table_or_query | opt_alias | select_stmt
  | opt_where | opt_limit | opt_groupby | sort_list | opt_asc_desc | opt_having | opt_orderby | projection
  | select_expr_list | table_factor
  deriving DecidableEq, Repr

abbrev SqlSymbol := Symbol Nat Nonterminal

abbrev SqlTree := ParseTree Nonterminal (ParseNode × Location)

def tok (t : Token) : SqlSymbol := .terminal (yytranslate t)

def mark (c : Char) : SqlSymbol := .terminal (yytranslateChar c.toUInt8)

def NULLX : SqlSymbol := .terminal 11

def MOD : SqlSymbol := .terminal 36

def nt (B : Nonterminal) : SqlSymbol := .nonterminal B

/-- The rules from number 2 on, in the order of the grammar. -/
def productions : List (ContextFreeRule Nat Nonterminal) := [
  ⟨.sql_stmt, [nt .stmt, mark ';']⟩,
  ⟨.sql_stmt, [tok .EXPLAIN, nt .stmt, mark ';']⟩,
  ⟨.get_stmt, [nt .select_stmt]⟩,
  ⟨.get_stmt, [nt .values_stmt]⟩,
  ⟨.get_stmt, [nt .show_tables_stmt]⟩,
  ⟨.get_stmt, [nt .desc_table_stmt]⟩,
  ⟨.stmt, [nt .get_stmt]⟩,
  ⟨.stmt, [nt .insert_stmt]⟩,
  ⟨.stmt, [nt .delete_stmt]⟩,
  ⟨.expr, [tok .NAME]⟩,
  ⟨.expr, [tok .STRING]⟩,
  ⟨.expr, [tok .BINARY]⟩,
  ⟨.expr, [tok .DATE_VALUE]⟩,
  ⟨.expr, [tok .INTNUM]⟩,
  ⟨.expr, [tok .APPROXNUM]⟩,
  ⟨.expr, [tok .BOOL]⟩,
  ⟨.expr, [tok .PARAM]⟩,
  ⟨.expr, [tok .NAME, mark '.', tok .NAME]⟩,
  ⟨.expr, [tok .ERROR]⟩,
  ⟨.expr, [nt .expr, mark '+', nt .expr]⟩,
  ⟨.expr, [nt .expr, mark '-', nt .expr]⟩,
  ⟨.expr, [nt .expr, mark '*', nt .expr]⟩,
  ⟨.expr, [nt .expr, mark '/', nt .expr]⟩,
  ⟨.expr, [nt .expr, mark '%', nt .expr]⟩,
  ⟨.expr, [nt .expr, MOD, nt .expr]⟩,
  ⟨.expr, [mark '-', nt .expr]⟩,
  ⟨.expr, [mark '+', nt .expr]⟩,
  ⟨.expr, [nt .expr, tok .COMP_LE, nt .expr]⟩,
  ⟨.expr, [nt .expr, tok .COMP_LT, nt .expr]⟩,
  ⟨.expr, [nt .expr, tok .COMP_EQ, nt .expr]⟩,
  ⟨.expr, [nt .expr, tok .COMP_GE, nt .expr]⟩,
  ⟨.expr, [nt .expr, tok .COMP_GT, nt .expr]⟩,
  ⟨.expr, [nt .expr, tok .COMP_NE, nt .expr]⟩,
  ⟨.expr, [nt .expr, tok .LIKE, tok .STRING]⟩,
  ⟨.expr, [nt .expr, tok .ANDOP, nt .expr]⟩,
  ⟨.expr, [nt .expr, tok .OR, nt .expr]⟩,
  ⟨.expr, [mark '(', nt .expr, mark ')']⟩,
  ⟨.expr, [nt .expr, tok .IS, NULLX]⟩,
  ⟨.expr, [nt .expr, tok .IS, tok .NOT, NULLX]⟩,
  ⟨.expr, [nt .expr, tok .IN, mark '(', nt .val_list, mark ')']⟩,
  ⟨.expr, [nt .expr, tok .NOT, tok .IN, mark '(', nt .val_list, mark ')']⟩,
  ⟨.expr, [tok .NAME, mark '(', nt .expr, mark ')']⟩,
  ⟨.val_list, [nt .expr]⟩,
  ⟨.val_list, [nt .expr, mark ',', nt .val_list]⟩,
  ⟨.delete_stmt, [tok .DELETE, tok .FROM, nt .table_factor, nt .opt_where]⟩,
  ⟨.values_stmt, [tok .VALUES, nt .value_list]⟩,
  ⟨.insert_stmt, [tok .INSERT, tok .INTO, nt .table_factor, nt .opt_col_names, nt .select_stmt]⟩,
  ⟨.insert_stmt, [tok .INSERT, tok .INTO, nt .table_factor, nt .opt_col_names, nt .values_stmt]⟩,
  ⟨.show_tables_stmt, [tok .SHOW, tok .TABLES]⟩,
  ⟨.desc_table_stmt, [tok .DESC, nt .table_factor]⟩,
  ⟨.opt_col_names, []⟩,
  ⟨.opt_col_names, [mark '(', nt .column_list, mark ')']⟩,
  ⟨.value_list, [mark '(', nt .row_value, mark ')']⟩,
  ⟨.value_list, [nt .value_list, mark ',', mark '(', nt .row_value, mark ')']⟩,
  ⟨.row_value, [nt .expr]⟩,
  ⟨.row_value, [nt .row_value, mark ',', nt .expr]⟩,
  ⟨.column_list, [tok .NAME]⟩,
  ⟨.column_list, [nt .column_list, mark ',', tok .NAME]⟩,
  ⟨.table_or_query, [nt .table_factor]⟩,
  ⟨.table_or_query, [mark '(', nt .get_stmt, mark ')']⟩,
  ⟨.opt_alias, []⟩,
  ⟨.opt_alias, [tok .AS, tok .NAME]⟩,
  ⟨.select_stmt, [tok .SELECT, nt .select_expr_list, tok .FROM, nt .table_or_query, nt .opt_alias, nt .opt_where,
    nt .opt_groupby, nt .opt_having, nt .opt_orderby, nt .opt_limit]⟩,
  ⟨.opt_where, []⟩,
  ⟨.opt_where, [tok .WHERE, nt .expr]⟩,
  ⟨.opt_limit, []⟩,
  ⟨.opt_limit, [tok .LIMIT, tok .INTNUM, tok .OFFSET, tok .INTNUM]⟩,
  ⟨.opt_limit, [tok .LIMIT, tok .INTNUM, mark ',', tok .INTNUM]⟩,
  ⟨.opt_groupby, []⟩,
  ⟨.opt_groupby, [tok .GROUP, tok .BY, nt .column_list]⟩,
  ⟨.sort_list, [nt .expr, nt .opt_asc_desc]⟩,
  ⟨.sort_list, [nt .sort_list, mark ',', nt .expr, nt .opt_asc_desc]⟩,
  ⟨.opt_asc_desc, []⟩,
  ⟨.opt_asc_desc, [tok .ASC]⟩,
  ⟨.opt_asc_desc, [tok .DESC]⟩,
  ⟨.opt_having, []⟩,
  ⟨.opt_having, [tok .HAVING, nt .expr]⟩,
  ⟨.opt_orderby, []⟩,
  ⟨.opt_orderby, [tok .ORDER, tok .BY, nt .sort_list]⟩,
  ⟨.projection, [nt .expr]⟩,
  ⟨.projection, [nt .expr, tok .AS, tok .NAME]⟩,
  ⟨.select_expr_list, [nt .projection]⟩,
  ⟨.select_expr_list, [nt .select_expr_list, mark ',', nt .projection]⟩,
  ⟨.select_expr_list, [mark '*']⟩,
  ⟨.table_factor, [tok .NAME]⟩]

def production (r : Nat) : Option (ContextFreeRule Nat Nonterminal) := if 2 ≤ r then productions[r - 2]? else none

def sqlGrammar : ContextFreeGrammar Nat where
  NT := Nonterminal
  initial := .sql_stmt
  rules := productions.toFinset

theorem production_mem {r : Nat} {R : ContextFreeRule Nat Nonterminal} (h : production r = some R) :
    R ∈ sqlGrammar.rules := by
  unfold production at h
  split at h
  case isTrue => exact List.mem_toFinset.mpr (List.mem_of_getElem? h)
  case isFalse => cases h

theorem production_lt {r : Nat} {R : ContextFreeRule Nat Nonterminal} (h : production r = some R) : r < 87 := by
  unfold production at h
  split at h
  case isTrue =>
    obtain ⟨hlt, -⟩ := List.getElem?_eq_some_iff.mp h
    have hlen : productions.length = 85 := rfl
    omega
  case isFalse => cases h

def yystos : List Nat := [
  0, 43, 60, 61, 66, 70, 77, 88, 111, 112, 113, 116, 117, 118, 119, 120, 127, 44, 67, 3, 137, 113, 72, 3, 4, 5, 6,
  7, 9, 10, 12, 31, 32, 33, 46, 107, 114, 135, 136, 107, 122, 0, 105, 137, 105, 137, 106, 107, 114, 114, 114, 14,
  16, 17, 18, 19, 21, 24, 25, 26, 27, 28, 29, 31, 32, 33, 34, 35, 36, 51, 67, 109, 114, 123, 109, 78, 128, 107,
  121, 3, 114, 108, 114, 114, 107, 11, 21, 4, 17, 114, 114, 114, 114, 114, 114, 114, 114, 114, 114, 114, 114, 3,
  107, 125, 137, 135, 108, 109, 107, 114, 3, 124, 117, 127, 108, 114, 115, 11, 107, 112, 51, 126, 114, 123, 108,
  109, 109, 108, 115, 108, 3, 128, 108, 3, 115, 108, 68, 130, 79, 69, 133, 124, 114, 76, 134, 79, 73, 129, 114,
  131, 6, 52, 61, 132, 109, 90, 109, 114, 6, 6, 132]

def nonterminals : List Nonterminal := [
  .sql_stmt, .get_stmt, .stmt, .expr, .val_list, .delete_stmt, .values_stmt, .insert_stmt, .show_tables_stmt,
  .desc_table_stmt, .opt_col_names, .value_list, .row_value, .column_list, .table_or_query, .opt_alias, .select_stmt,
  .opt_where, .opt_limit, .opt_groupby, .sort_list, .opt_asc_desc, .opt_having, .opt_orderby, .projection,
  .select_expr_list, .table_factor]

def numbered (n : Nat) : SqlSymbol :=
  if n < 110 then .terminal n else .nonterminal (nonterminals.getD (n - 111) .sql_stmt)

def stateSymbol (s : Nat) : SqlSymbol := numbered (yystos.getD s 0)

/-- An entry of the tables leads to a state of its token, or it is for no row of a state. -/
def entrySpells : (Int × Nat) × Nat → Bool
  | ((.negSucc _, _), _) => true
  | ((.ofNat t, s'), i) =>
    Nat.beq (yystos.getD s' 0) t && Nat.ble (t + 1) 110 ||
      yypact.all fun row =>
        match row with
        | .ofNat r => !Nat.beq i (r + t)
        | .negSucc r => !Nat.beq (i + (r + 1)) t

theorem entries_spell : entries.all entrySpells = true := by decide +kernel

theorem shift_symbol (s t s' : Nat) (h : shift s t = some s') : stateSymbol s' = .terminal t := by
  obtain ⟨row, hmem, -, hlook⟩ := shift_row h
  obtain ⟨i, hi, hentry⟩ := entries_all entries_spell hlook
  have hrow := (List.of_mem_zip hmem).1
  change (Nat.beq (yystos.getD s' 0) t && Nat.ble (t + 1) 110 || yypact.all _) = true at hentry
  rw [Bool.or_eq_true] at hentry
  obtain hentry | hentry := hentry
  · obtain ⟨hsymbol, hlt⟩ := (Bool.and_eq_true _ _).mp hentry
    rw [stateSymbol, Nat.eq_of_beq_eq_true hsymbol, numbered, if_pos (Nat.lt_of_succ_le (Nat.le_of_ble_eq_true hlt))]
  · have hno := List.all_eq_true.mp hentry row hrow
    cases row with
    | ofNat r =>
      rw [Int.ofNat_eq_natCast] at hi
      have hbeq : Nat.beq i (r + t) = true := Nat.beq_eq.mpr (by omega)
      simp [hbeq] at hno
    | negSucc r =>
      have hbeq : Nat.beq (i + (r + 1)) t = true := Nat.beq_eq.mpr (by omega)
      simp [hbeq] at hno

/-- The default reduction of a state pops the right side of its rule. -/
def spells (s : Nat) : Bool :=
  match defaultRule s with
  | none => true
  | some r =>
    match production r with
    | none => false
    | some R =>
      R.output.length == yyr2.getD r 0 &&
        ((List.range (yyr2.getD r 0)).all fun k =>
          (Lalr.under below k s).all fun p => R.output.reverse[k]? == some (stateSymbol p)) &&
        (Lalr.under below (yyr2.getD r 0) s).all fun p =>
          stateSymbol (goto p (yyr1.getD r 0)) == .nonterminal R.input

theorem states_spell : ((List.range 161).all fun s => s == YYFINAL || spells s) = true := by decide +kernel

theorem spelled {s r : Nat} (hfinal : s ≠ YYFINAL) (h : defaultRule s = some r) :
    ∃ R, production r = some R ∧ R.output.length = yyr2.getD r 0 ∧
      (∀ k < yyr2.getD r 0, ∀ p ∈ Lalr.under below k s, R.output.reverse[k]? = some (stateSymbol p)) ∧
      ∀ p ∈ Lalr.under below (yyr2.getD r 0) s, stateSymbol (goto p (yyr1.getD r 0)) = .nonterminal R.input := by
  have hlt : s < 161 := by
    have hdefact : yydefact.length = 161 := rfl
    by_contra hge
    rw [defaultRule, List.getD_eq_default _ _ (by omega)] at h
    cases h
  have hs := List.all_eq_true.mp states_spell s (List.mem_range.mpr hlt)
  rw [Bool.or_eq_true, or_iff_right (by simpa using hfinal)] at hs
  unfold spells at hs
  rw [h] at hs
  dsimp only at hs
  cases hR : production r with
  | none =>
    rw [hR] at hs
    cases hs
  | some R =>
    rw [hR] at hs
    simp only [Bool.and_eq_true, beq_iff_eq, List.all_eq_true, List.mem_range] at hs
    exact ⟨R, rfl, hs.1.1, hs.1.2, hs.2⟩

def sqlSpelling : Lalr.Spelling sqlGround production where
  symbol := stateSymbol
  shift_symbol := shift_symbol
  spelled _ hfinal _ h := spelled hfinal h

end LevelPgServer.SqlParser
