import LevelPgServer.Common.ParserMessages
import LevelPgServer.Common.Regrouping

/-! A syntax error is reported only for texts that do not begin with a sentence of the grammar. -/

namespace LevelPgServer.SqlParser

open ParseNode Lalr StateRules

def symbolsOf (ps : List Piece) : List Nat := ps.filterMap fun p => (p.action.token p.yytext).map yytranslate

/-- The tokens of the first statement of a text. A semicolon closes it, in the text or at its end. -/
def statementTokens (sql : Bytes) : List Nat :=
  (symbolsOf (pieces (sql.takeWhile (· != 0)))).takeWhile (· != 105) ++ [105]

theorem symbolsOf_cons (p : Piece) (ps : List Piece) :
    symbolsOf (p :: ps) = ((p.action.token p.yytext).map yytranslate).toList ++ symbolsOf ps := by
  rw [symbolsOf, symbolsOf, List.filterMap_cons]
  cases (p.action.token p.yytext).map yytranslate <;> rfl

theorem action_accepting {r : Nat} (hr : accepting r) {rhs : Rhs} {loc : Location} {s s' : ParseState} {v : Verdict}
    (h : action r rhs loc s = .ok v s') : v = .accept := by
  obtain rfl | rfl := hr
  · cases h
    rfl
  · obtain ⟨p, t, hrun, -⟩ | ⟨t, hrun, -⟩ := Makes.newPlanNode "ExplainStmt" .explain loc [rhs.value 2] s
    · simp only [action, Bind.bind, EStateM.bind, hrun] at h
      cases h
      rfl
    · simp only [action, Bind.bind, EStateM.bind, hrun] at h
      cases h

def sqlSupply : Supply sqlActions accepting where
  ahead s ts := ∃ us k, ts ++ us = symbolsOf (pieces s.input) ++ List.replicate k 105
  lex s t ts u s' := by
    rintro ⟨us, k, htokens⟩ h
    obtain ⟨hnil, rfl, rfl⟩ | ⟨p, hp, rfl⟩ := lex_piece h
    · rw [hnil, pieces_nil] at htokens
      have hcons : t :: (ts ++ us) = List.replicate k 105 := htokens
      obtain ⟨rfl, hrest⟩ := List.eq_replicate_iff.mp hcons |>.2 |> List.forall_mem_cons.mp
      refine ⟨ts, rfl, us, (ts ++ us).length, ?_⟩
      rw [hnil, pieces_nil]
      exact List.eq_replicate_of_mem hrest
    · rw [pieces_of_next hp, symbolsOf_cons] at htokens
      cases hu : (p.action.token p.yytext).map yytranslate with
      | none =>
        rw [hu] at htokens
        exact ⟨t :: ts, rfl, us, k, htokens⟩
      | some t' =>
        rw [hu] at htokens
        obtain ⟨rfl, hrest⟩ := List.cons.inj htokens
        exact ⟨ts, rfl, us, k, hrest⟩
  reduce s ts r rhs loc v s' := by
    rintro ⟨us, k, htokens⟩ h
    have hreduces := action_reduces r rhs loc s
    refine ⟨⟨us, k, ?_⟩, fun hr => ?_⟩
    · rw [hreduces.input h]
      exact htokens
    · cases action_accepting hr h

theorem exists_production {R : ContextFreeRule Nat Nonterminal} (h : R ∈ productions) : ∃ r, production r = some R := by
  obtain ⟨i, hi⟩ := List.mem_iff_getElem?.mp h
  exact ⟨i + 2, by rw [production, if_pos (Nat.le_add_left 2 i), Nat.add_sub_cancel, hi]⟩

def anyValue (_ : Nat) (_ : Rhs) (_ : ParseNode × Location) : Prop := True

/-- The nodes of a tree are instances of their rules, whatever its values are. -/
def Derived (T : SqlTree) : Prop := T.Valid production anyToken anyValue

theorem grouped_of_language {w : List Nat} (h : w ∈ sqlGrammar.language) :
    ∃ T : SqlTree, Derived T ∧ Grouped T ∧ T.root = .nonterminal .sql_stmt ∧ T.word.map Prod.fst = w := by
  have hreads : ∀ t, ∃ a, anyToken t a := fun _ => ⟨(.null, ⟨1, 1⟩), trivial⟩
  have hbuilds : ∀ r rhs, ∃ a, anyValue r rhs a := fun _ _ => ⟨(.null, ⟨1, 1⟩), trivial⟩
  have hrules : ∀ R ∈ sqlGrammar.rules, ∃ r, production r = some R :=
    fun _ hR => exists_production (List.mem_toFinset.mp hR)
  obtain ⟨Ts, hroots, hvalid, hword⟩ :=
    ParseTree.exists_of_derives hrules hreads hbuilds ((ContextFreeGrammar.mem_language_iff _ _).mp h)
  obtain ⟨T, rfl, hroot⟩ := List.map_eq_singleton_iff.mp hroots
  obtain ⟨⟨T', hvalid', hgrouped', hroot', hword'⟩, -⟩ := exists_regrouped hbuilds T (hvalid T List.mem_cons_self)
  refine ⟨T', hvalid', hgrouped', hroot'.trans hroot, ?_⟩
  rw [hword', ← hword, List.flatMap_singleton]
  rfl

theorem script_follows {reads : Nat → ParseNode × Location → Prop} {builds : Nat → Rhs → ParseNode × Location → Prop}
    {T : SqlTree} (hvalid : T.Valid production reads builds) (hgrouped : Grouped T)
    (hroot : T.root = .nonterminal .sql_stmt) : Follows sqlTables accepting [0] T.script := by
  cases T with
  | token => cases hroot
  | node r B a children =>
    obtain rfl := Symbol.nonterminal.inj hroot
    obtain ⟨hrule, hchildren, hgroupedC, -, -⟩ := node_parts hvalid hgrouped
    rw [ParseTree.script_node]
    exact statement_follows hrule hchildren hgroupedC

/-- The sentences are what can be derived in exactly one way with the operators grouped by their levels. -/
theorem mem_language_iff_existsUnique (w : List Nat) : w ∈ sqlGrammar.language ↔
    ∃! S : ParseTree Nonterminal Unit, ∃ T : SqlTree, Derived T ∧ Grouped T ∧ T.root = .nonterminal .sql_stmt ∧
      T.word.map Prod.fst = w ∧ T.shape = S := by
  constructor
  · intro h
    obtain ⟨T, hderived, hgrouped, hroot, hword⟩ := grouped_of_language h
    refine ⟨T.shape, ⟨T, hderived, hgrouped, hroot, hword, rfl⟩, ?_⟩
    rintro S ⟨T', hderived', hgrouped', hroot', hword', rfl⟩
    have hscripts := (script_follows hderived' hgrouped' hroot').unique (script_follows hderived hgrouped hroot)
      (by rw [ParseTree.tokens_script, ParseTree.tokens_script, hword, hword'])
    have hends : [] ++ T'.script = [] ++ T.script := congrArg _ hscripts
    exact (hderived'.shape_of_script hderived hends).2
  · rintro ⟨S, ⟨T, hderived, -, hroot, rfl, -⟩, -⟩
    have hderives : ∀ X, T.root = X → sqlGrammar.Derives [X] (T.word.map fun x => .terminal x.1) := by
      rintro X rfl
      exact ParseTree.Valid.derives (G := sqlGrammar) (fun r R => production_mem) hderived
    rw [ContextFreeGrammar.mem_language_iff, List.map_map]
    exact hderives _ hroot

/-- The driver does not give up on a text that begins with a sentence. -/
theorem todo_of_language {sql : Bytes} {s : ParseState} (h : statementTokens sql ∈ sqlGrammar.language) {c : SqlConfig}
    (hreaches : Reaches sqlTables sqlActions (start (opened sql s)) c) : sqlTables.todo c ≠ .syntaxError := by
  obtain ⟨T, hderived, hgrouped, hroot, hword⟩ := grouped_of_language h
  have hplays : Plays sqlTables sqlSupply (start (opened sql s)) T.script := by
    refine ⟨script_follows hderived hgrouped hroot, statementTokens sql, ?_, ?_⟩
    · rw [ParseTree.tokens_script, hword]
      rfl
    · change ∃ us k, statementTokens sql ++ us = symbolsOf (pieces (sql.takeWhile (· != 0))) ++ List.replicate k 105
      unfold statementTokens
      generalize symbolsOf (pieces (sql.takeWhile (· != 0))) = ws
      have hws := List.takeWhile_append_dropWhile (p := (· != 105)) (l := ws)
      cases hdrop : ws.dropWhile (· != 105) with
      | nil =>
        rw [hdrop, List.append_nil] at hws
        exact ⟨[], 1, by rw [hws, List.append_nil]; rfl⟩
      | cons t us =>
        obtain rfl : t = 105 := by
          have hhead := List.head_dropWhile_not (· != 105) (l := ws) (by simp [hdrop])
          simpa [hdrop] using hhead
        refine ⟨us, 0, ?_⟩
        rw [hdrop] at hws
        rw [List.append_assoc, List.singleton_append, hws]
        exact (List.append_nil _).symm
  exact hplays.of_reaches hreaches

/-- The parser throws a syntax error only for a text whose first statement is no sentence of the grammar. -/
theorem not_mem_language_of_syntaxError {sql : Bytes} {s s' : ParseState} {col : Nat}
    (h : parse sql s = .error (.thrown (.parse "syntax error" col)) s') :
    statementTokens sql ∉ sqlGrammar.language := by
  intro hmem
  obtain ⟨c, hreaches, htodo⟩ := rejects_of_syntaxError h
  exact todo_of_language hmem hreaches htodo

def faultOf : EStateM.Result Fault ParseState Unit → Option Fault
  | .ok _ _ => none
  | .error f _ => some f

theorem not_mem_language_of_syntaxError_show : statementTokens (bytes "show from t") ∉ sqlGrammar.language := by
  have hfault : faultOf (parse (bytes "show from t") .fresh) = some (.thrown (.parse "syntax error" (6 : Nat))) := by
    decide
  cases hrun : parse (bytes "show from t") .fresh with
  | ok _ s' =>
    rw [hrun] at hfault
    cases hfault
  | error f s' =>
    rw [hrun] at hfault
    obtain rfl := Option.some.inj hfault
    exact not_mem_language_of_syntaxError hrun

end LevelPgServer.SqlParser
