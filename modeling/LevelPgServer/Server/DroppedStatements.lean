import LevelPgServer.Common.Statements
import LevelPgServer.Server.SessionInfo

/-! What becomes of a query with several statements. -/

namespace LevelPgServer.SessionInfo

open ParseNode SqlParser

def parseText (sql : Bytes) : ParseM Unit := do
  modify fun s => { s with m_pResult := .null }
  if bypassed sql then return () else SqlParser.parse sql

/-- `handleQuery` and the calls of the plan. `serve` builds the plan of a tree and executes it; the empty
plan does nothing. -/
def handleText (serve : ParseNode → Fallible Unit) (sql : Bytes) : ParseM Unit := do
  parseText sql
  match (← get).m_pResult with
  | .null => return ()
  | .node type op sExpr sValue children =>
    match serve (.node type op sExpr sValue children) with
    | .ok () => return ()
    | .error f => throw f

/-- The statements that nothing has looked at: those behind a bypassed one, or behind the one that is
parsed. A text ends at its first zero. -/
def leftBehind (sql : Bytes) (s : ParseState) : List (List Piece) :=
  if bypassed sql then (statements (sql.takeWhile (· != 0))).tail else statements s.input

def ServesAll (serve : ParseNode → Fallible Unit) (sql : Bytes) (s : ParseState) : Prop :=
  ∀ s', handleText serve sql s = .ok () s' → leftBehind sql s' = []

variable {serve : ParseNode → Fallible Unit} {sql : Bytes} {s s' : ParseState}

theorem parse_of_handleText (h : handleText serve sql s = .ok () s') (hb : bypassed sql = false) :
    SqlParser.parse sql { s with m_pResult := .null } = .ok () s' := by
  have hparse : parseText sql s = SqlParser.parse sql { s with m_pResult := .null } := by
    simp only [parseText, Bind.bind, EStateM.bind, StateRules.modify_run, hb,
      Bool.false_eq_true, if_false]
  cases hrun : SqlParser.parse sql { s with m_pResult := .null } with
  | error f s2 =>
    simp only [handleText, Bind.bind, EStateM.bind, hparse, hrun] at h
    cases h
  | ok u s2 =>
    simp only [handleText, Bind.bind, EStateM.bind, hparse, hrun, StateRules.get_run] at h
    cases hnode : s2.m_pResult with
    | null =>
      simp only [hnode] at h
      cases h
      rfl
    | node type op sExpr sValue children =>
      simp only [hnode] at h
      cases hserve : serve (.node type op sExpr sValue children) with
      | ok u =>
        simp only [hserve] at h
        cases h
        rfl
      | error f =>
        simp only [hserve] at h
        cases h

theorem leftBehind_eq_nil_iff (h : handleText serve sql s = .ok () s') :
    leftBehind sql s' = [] ↔ (statements (sql.takeWhile (· != 0))).length ≤ 1 := by
  cases hb : bypassed sql with
  | true =>
    rw [leftBehind, if_pos hb, ← List.length_eq_zero_iff, List.length_tail]
    omega
  | false =>
    obtain ⟨first, hsplit⟩ := statements_of_parse (parse_of_handleText h hb)
    rw [leftBehind, if_neg (Bool.eq_false_iff.mp hb), hsplit, List.length_cons, ← List.length_eq_zero_iff]
    omega

theorem serves_all_iff (serve : ParseNode → Fallible Unit) (sql : Bytes) (s : ParseState) :
    ServesAll serve sql s ↔
      (∃ f s', handleText serve sql s = .error f s') ∨ (statements (sql.takeWhile (· != 0))).length ≤ 1 := by
  rw [ServesAll]
  cases hrun : handleText serve sql s with
  | error f s' =>
    refine iff_of_true (fun s' h => ?_) (.inl ⟨f, s', rfl⟩)
    cases h
  | ok u s' =>
    constructor
    · intro h
      exact .inr ((leftBehind_eq_nil_iff hrun).mp (h s' rfl))
    · intro h s2 hok
      cases hok
      obtain ⟨f, s2, herror⟩ | hone := h
      · cases herror
      · exact (leftBehind_eq_nil_iff hrun).mpr hone

/-- The row is not inserted. -/
theorem transaction_dropped :
    ¬ ServesAll (fun _ => .ok ()) (bytes "BEGIN;INSERT INTO t VALUES (1);COMMIT") .fresh := by
  intro h
  have hnil := h { ParseState.fresh with m_pResult := .null } rfl
  have hlength : (leftBehind (bytes "BEGIN;INSERT INTO t VALUES (1);COMMIT") .fresh).length = 2 := by decide +kernel
  have hsame : leftBehind (bytes "BEGIN;INSERT INTO t VALUES (1);COMMIT") .fresh = [] := hnil
  rw [hsame] at hlength
  cases hlength

end LevelPgServer.SessionInfo
