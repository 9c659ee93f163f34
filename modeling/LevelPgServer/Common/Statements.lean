import LevelPgServer.Common.ReportedErrors
import LevelPgServer.Common.StringLiteral

/-! The statements of a text, and where the parser stops in it. -/

namespace LevelPgServer.SqlParser

open ParseNode

structure Piece where
  action : LexAction
  yytext : Bytes
  deriving DecidableEq

def Piece.isEnd (p : Piece) : Bool := p.action.token p.yytext = some (.chr 59)

def Piece.isBlank (p : Piece) : Bool := p.action = .comment

def piecesWithin : Nat → Bytes → List Piece
  | 0, _ => []
  | fuel + 1, input =>
    match ScanRule.scan lexRules input with
    | none => []
    | some (n, r) => ⟨r.action, input.take (n - r.trailing)⟩ :: piecesWithin fuel (input.drop (n - r.trailing))

/-- The matches of the scanner up to the end of the text. -/
def pieces (input : Bytes) : List Piece := piecesWithin input.length input

/-- What stands between the semicolons of a text, without blanks. -/
def statements (input : Bytes) : List (List Piece) :=
  (((pieces input).filter (fun p => !p.isBlank)).splitOnP Piece.isEnd).filter (fun ps => !ps.isEmpty)

def NextPiece (input : Bytes) (p : Piece) (rest : Bytes) : Prop :=
  ∃ n r, ScanRule.scan lexRules input = some (n, r) ∧ p = ⟨r.action, input.take (n - r.trailing)⟩ ∧
    rest = input.drop (n - r.trailing)

theorem piecesWithin_eq : ∀ (fuel fuel' : Nat) (input : Bytes), input.length ≤ fuel → input.length ≤ fuel' →
    piecesWithin fuel input = piecesWithin fuel' input
  | 0, 0, _, _, _ => rfl
  | 0, _ + 1, input, h, _ => by
    obtain rfl := List.length_eq_zero_iff.mp (Nat.le_zero.mp h)
    rw [piecesWithin, piecesWithin]
    split
    · rfl
    · next n r hscan => exact (scan_nil hscan).elim
  | _ + 1, 0, input, _, h => by
    obtain rfl := List.length_eq_zero_iff.mp (Nat.le_zero.mp h)
    rw [piecesWithin, piecesWithin]
    split
    · rfl
    · next n r hscan => exact (scan_nil hscan).elim
  | fuel + 1, fuel' + 1, input, h, h' => by
    rw [piecesWithin, piecesWithin]
    split
    · rfl
    · next n r hscan =>
      obtain ⟨hpos, hle⟩ := scan_pos hscan
      have hlen : (input.drop (n - r.trailing)).length + 1 ≤ input.length := by
        rw [List.length_drop]
        omega
      rw [piecesWithin_eq fuel fuel' _ (by omega) (by omega)]

theorem pieces_of_next {input rest : Bytes} {p : Piece} (h : NextPiece input p rest) : pieces input = p :: pieces rest := by
  obtain ⟨n, r, hscan, rfl, rfl⟩ := h
  obtain ⟨hpos, hle⟩ := scan_pos hscan
  have hlen : (input.drop (n - r.trailing)).length + 1 ≤ input.length := by
    rw [List.length_drop]
    omega
  have hone : input.length = (input.length - 1) + 1 := by omega
  rw [pieces, hone, piecesWithin, hscan]
  dsimp only
  rw [pieces, piecesWithin_eq (input.length - 1) (input.drop (n - r.trailing)).length _ (by omega) le_rfl]

theorem pieces_nil : pieces [] = [] := rfl

theorem statements_append {input rest : Bytes} {ps : List Piece} (hno : ∀ p ∈ ps, p.isEnd = false)
    (hsome : ∃ p ∈ ps, p.isBlank = false)
    (h : (∃ p, p.isEnd = true ∧ pieces input = ps ++ p :: pieces rest) ∨ rest = [] ∧ pieces input = ps) :
    ∃ first, statements input = first :: statements rest := by
  have hfilter : ∀ p ∈ ps.filter (fun p => !p.isBlank), p.isEnd = false := fun p hp => hno p (List.mem_filter.mp hp).1
  have hne : (ps.filter (fun p => !p.isBlank)).isEmpty = false := by
    obtain ⟨p, hp, hblank⟩ := hsome
    rw [List.isEmpty_eq_false_iff_exists_mem]
    exact ⟨p, List.mem_filter.mpr ⟨hp, by rw [hblank]; rfl⟩⟩
  refine ⟨ps.filter (fun p => !p.isBlank), ?_⟩
  obtain ⟨p, hend, hpieces⟩ | ⟨rfl, hpieces⟩ := h
  · have hblank : p.isBlank = false := by
      rw [Piece.isBlank, decide_eq_false_iff_not]
      intro haction
      rw [Piece.isEnd, haction] at hend
      cases hend
    have hkeep : (p :: pieces rest).filter (fun p => !p.isBlank) = p :: (pieces rest).filter (fun p => !p.isBlank) :=
      List.filter_cons_of_pos (by rw [hblank]; rfl)
    rw [statements, hpieces, List.filter_append, hkeep, List.splitOnP_append_cons_of_forall_mem hfilter p hend,
      List.filter_cons_of_pos (by rw [hne]; rfl), statements]
  · rw [statements, hpieces, List.splitOnP_eq_singleton hfilter, List.filter_cons_of_pos (by rw [hne]; rfl)]
    rfl

inductive Consumes (input : Bytes) : List Piece → Bytes → Prop
  | nil : Consumes input [] input
  | snoc {ps : List Piece} {p : Piece} {rest rest' : Bytes} (h : Consumes input ps rest) (hp : NextPiece rest p rest') :
      Consumes input (ps ++ [p]) rest'

theorem Consumes.pieces_eq {input rest : Bytes} {ps : List Piece} (h : Consumes input ps rest) :
    pieces input = ps ++ pieces rest := by
  induction h with
  | nil => rfl
  | snoc _ hp ih => rw [ih, pieces_of_next hp, List.append_assoc, List.singleton_append]

/-! The parser reads one semicolon, and nothing behind it. -/

theorem yytranslate_semicolon {t : Token} (h : yytranslate t = 105) : t = .chr 59 := by
  cases t with
  | chr c =>
    have hall : ∀ c, yytranslateChar c = 105 → c = 59 := forall_byte (by decide +kernel)
    rw [hall c h]
  | _ => cases h

set_option maxRecDepth 4000 in
theorem shift_closes {s t s' : Nat} (h : shift s t = some s') (hs : s' = 42 ∨ s' = 44) : t = 105 := by
  obtain ⟨row, -, -, hlook⟩ := shift_row h
  have hall : entries.all (fun e => e.1.2 != 42 && e.1.2 != 44 || e.1.1 == 105) = true := rfl
  obtain ⟨i, -, hentry⟩ := entries_all hall hlook
  obtain rfl | rfl := hs
  · exact Int.ofNat_inj.mp (by simpa using hentry)
  · exact Int.ofNat_inj.mp (by simpa using hentry)

theorem shift_start : shift 0 105 = none := rfl

theorem defaultRule_start : defaultRule 0 = none := rfl

theorem lex_piece {s s' : ParseState} {t : Option Nat} (h : sqlActions.lex s = .ok t s') :
    s.input = [] ∧ t = some 105 ∧ s' = s ∨
      ∃ p, NextPiece s.input p s'.input ∧ t = (p.action.token p.yytext).map yytranslate := by
  rw [lex_eq] at h
  obtain ⟨hnil, hlex⟩ | ⟨n, r, hscan, -, -, hlex⟩ := yylex_cases s
  · rw [hlex] at h
    cases h
    exact .inl ⟨hnil, rfl, rfl⟩
  · right
    have hlexes := lexAct_lexes r.action (s.input.take (n - r.trailing)) (advance (n - r.trailing) s)
    have hgives := lexAct_gives r.action (s.input.take (n - r.trailing)) (advance (n - r.trailing) s)
    rw [hlex] at h
    cases hrun : lexAct r.action (s.input.take (n - r.trailing)) (advance (n - r.trailing) s) with
    | error e s2 =>
      rw [hrun] at h
      cases h
    | ok t2 s2 =>
      rw [hrun] at h hlexes
      cases h
      have ht := hgives t2 s' hrun
      have hinput : s'.input = (advance (n - r.trailing) s).input := by
        cases hlexes with
        | token hq | skip hq => exact hq.input
        | error hrep | unterminated _ hrep => exact hrep.input
      exact ⟨⟨r.action, s.input.take (n - r.trailing)⟩, ⟨n, r, hscan, rfl, hinput⟩, by rw [ht]⟩

theorem accept_input {r : Nat} {rhs : Rhs} {loc : Location} {s s' : ParseState} (h : action r rhs loc s = .ok .accept s') :
    s'.input = s.input ∧ (r = 2 ∨ r = 3) := by
  have hred := action_reduces r rhs loc s
  rw [h] at hred
  cases hred with
  | accept hr =>
    refine ⟨?_, hr⟩
    obtain rfl | rfl := hr
    · cases h
      rfl
    · obtain ⟨p, s2, hrun, hquiet⟩ | ⟨s2, hrun, hquiet⟩ := Makes.newPlanNode "ExplainStmt" .explain loc [rhs.value 2] s
      · simp only [action, Bind.bind, EStateM.bind, hrun] at h
        cases h
        exact hquiet.input
      · simp only [action, Bind.bind, EStateM.bind, hrun] at h
        cases h

/-- What has been read of a text: only blanks, or a semicolon in front of any statement; a part of the
first statement; the first statement and its semicolon. -/
inductive Phase (sql : Bytes) (c : SqlConfig) : Prop
  | fresh {ps : List Piece} {f : Lalr.Frame ParseNode Location} (hread : Consumes sql ps c.env.input)
      (hblank : ∀ p ∈ ps, p.isBlank = true) (hstack : c.stack = [f]) (hstate : f.state = 0) (hlook : c.lookahead = none)
  | stuck {f : Lalr.Frame ParseNode Location} (hstack : c.stack = [f]) (hstate : f.state = 0) (hlook : c.lookahead = some 105)
  | inside {ps : List Piece} (hread : Consumes sql ps c.env.input) (hno : ∀ p ∈ ps, p.isEnd = false)
      (hsome : ∃ p ∈ ps, p.isBlank = false) (hlook : c.lookahead ≠ some 105)
      (htop : ∀ top below, c.stack = top :: below → top.state ≠ 42 ∧ top.state ≠ 44)
  | closed {first : List Piece} (hsplit : statements sql = first :: statements c.env.input)
      (hend : c.lookahead = some 105 ∨ ∃ top below, c.stack = top :: below ∧ (top.state = 42 ∨ top.state = 44))

theorem isEnd_blank {p : Piece} (h : p.isBlank = true) : p.isEnd = false := by
  rw [Piece.isBlank, decide_eq_true_eq] at h
  rw [Piece.isEnd, h]
  rfl

variable {sql : Bytes} {c c' : SqlConfig}

/-- A match behind `ps`, when no semicolon has been read. -/
theorem Phase.of_piece {ps : List Piece} {p : Piece} {env : ParseState} (hread : Consumes sql ps c.env.input)
    (hno : ∀ q ∈ ps, q.isEnd = false) (hsome : ∃ q ∈ ps ++ [p], q.isBlank = false)
    (hempty : (∀ q ∈ ps, q.isBlank = true) → ∃ f, c.stack = [f] ∧ f.state = 0)
    (htop : ∀ top below, c.stack = top :: below → top.state ≠ 42 ∧ top.state ≠ 44)
    (hp : NextPiece c.env.input p env.input) :
    Phase sql { stack := c.stack, lookahead := (p.action.token p.yytext).map yytranslate, env } := by
  by_cases hend : p.isEnd = true
  · have hlook : (p.action.token p.yytext).map yytranslate = some 105 := by
      rw [of_decide_eq_true hend]
      rfl
    by_cases hblank : ∀ q ∈ ps, q.isBlank = true
    · obtain ⟨f, hstack, hstate⟩ := hempty hblank
      exact .stuck hstack hstate hlook
    · push Not at hblank
      obtain ⟨q, hq, hfalse⟩ := hblank
      have hpieces : pieces sql = ps ++ p :: pieces env.input := by rw [hread.pieces_eq, pieces_of_next hp]
      obtain ⟨first, hsplit⟩ := statements_append hno ⟨q, hq, Bool.eq_false_iff.mpr hfalse⟩ (.inl ⟨p, hend, hpieces⟩)
      exact .closed hsplit (.inl hlook)
  · have hend : p.isEnd = false := Bool.eq_false_iff.mpr hend
    refine .inside (hread.snoc hp) ?_ hsome ?_ htop
    · intro q hq
      obtain hq | hq := List.mem_append.mp hq
      · exact hno q hq
      · rw [List.mem_singleton.mp hq]
        exact hend
    · intro hlook
      obtain ⟨t, ht, h105⟩ := Option.map_eq_some_iff.mp hlook
      rw [yytranslate_semicolon h105] at ht
      rw [Piece.isEnd, ht] at hend
      cases hend

theorem Phase.of_moves (h : Phase sql c) (hmove : Lalr.Moves sqlTables sqlActions c c') : Phase sql c' := by
  cases h with
  | @fresh ps f hread hblank hstack hstate hlook =>
    cases hmove with
    | @lex t env htodo hlex =>
      obtain ⟨-, rfl, rfl⟩ | ⟨p, hp, rfl⟩ := lex_piece hlex
      · exact .stuck hstack hstate rfl
      · have htop : ∀ top below, c.stack = top :: below → top.state ≠ 42 ∧ top.state ≠ 44 := by
          intro top below htop
          rw [hstack] at htop
          cases htop
          omega
        cases hcase : p.isBlank with
        | true =>
          have haction : p.action = .comment := of_decide_eq_true hcase
          refine .fresh (hread.snoc hp) ?_ hstack hstate (by rw [haction]; rfl)
          intro q hq
          obtain hq | hq := List.mem_append.mp hq
          · exact hblank q hq
          · rw [List.mem_singleton.mp hq]
            exact hcase
        | false =>
          exact .of_piece hread (fun q hq => isEnd_blank (hblank q hq)) ⟨p, by simp, hcase⟩ (fun _ => ⟨f, hstack, hstate⟩)
            htop hp
    | shift htodo =>
      obtain ⟨top, below, t, -, -, hsome, -⟩ := Lalr.todo_shift htodo
      rw [hlook] at hsome
      cases hsome
    | reduce htodo =>
      obtain ⟨top, below, htop, -, hreduce⟩ := Lalr.todo_reduce htodo
      rw [hstack] at htop
      cases htop
      rw [hstate, show sqlTables.reduce 0 = none from defaultRule_start] at hreduce
      cases hreduce
  | @stuck f hstack hstate hlook =>
    cases hmove with
    | lex htodo =>
      obtain ⟨top, below, -, -, hnone⟩ := Lalr.todo_lex htodo
      rw [hlook] at hnone
      cases hnone
    | shift htodo =>
      obtain ⟨top, below, t, htop, -, ht, hshift⟩ := Lalr.todo_shift htodo
      rw [hstack] at htop
      cases htop
      rw [hlook] at ht
      cases ht
      rw [hstate, show sqlTables.shift 0 105 = none from shift_start] at hshift
      cases hshift
    | reduce htodo =>
      obtain ⟨top, below, htop, -, hreduce⟩ := Lalr.todo_reduce htodo
      rw [hstack] at htop
      cases htop
      rw [hstate, show sqlTables.reduce 0 = none from defaultRule_start] at hreduce
      cases hreduce
  | @inside ps hread hno hsome hlook htop =>
    cases hmove with
    | @lex t env htodo hlex =>
      obtain ⟨hnil, rfl, rfl⟩ | ⟨p, hp, rfl⟩ := lex_piece hlex
      · rw [hnil] at hread
        have hpieces : pieces sql = ps := by rw [hread.pieces_eq, pieces_nil, List.append_nil]
        obtain ⟨first, hsplit⟩ := statements_append hno hsome (.inr ⟨rfl, hpieces⟩)
        exact .closed (by rw [hnil]; exact hsplit) (.inl rfl)
      · obtain ⟨q, hq, hfalse⟩ := hsome
        refine .of_piece hread hno ⟨q, by simp [hq], hfalse⟩ (fun hblank => ?_) htop hp
        rw [hblank q hq] at hfalse
        cases hfalse
    | shift htodo =>
      obtain ⟨top, below, t, hstack, -, ht, hshift⟩ := Lalr.todo_shift htodo
      refine .inside hread hno hsome (by simp) ?_
      intro top' below' hstack'
      cases hstack'
      have hne : t ≠ 105 := fun h105 => hlook (by rw [ht, h105])
      exact ⟨fun h42 => hne (shift_closes hshift (.inl h42)), fun h44 => hne (shift_closes hshift (.inr h44))⟩
    | @reduce r base rest v loc env htodo hdrop haction =>
      have hinput := (action_reduces r (sqlTables.rhs r c) loc c.env).input haction
      refine .inside (by rw [hinput]; exact hread) hno hsome hlook ?_
      intro top' below' hstack'
      cases hstack'
      exact goto_ne _ _
  | @closed first hsplit hend =>
    obtain hlook | ⟨top, below, hstack, htop⟩ := hend
    · cases hmove with
      | lex htodo =>
        obtain ⟨top, below, -, -, hnone⟩ := Lalr.todo_lex htodo
        rw [hlook] at hnone
        cases hnone
      | shift htodo =>
        obtain ⟨top, below, t, -, -, ht, hshift⟩ := Lalr.todo_shift htodo
        rw [hlook] at ht
        cases ht
        exact .closed hsplit (.inr ⟨_, _, rfl, shift_semicolon hshift⟩)
      | @reduce r base rest v loc env htodo hdrop haction =>
        have hinput := (action_reduces r (sqlTables.rhs r c) loc c.env).input haction
        exact .closed (by rw [hinput]; exact hsplit) (.inl hlook)
    · exact (semicolon_stops htop hstack rfl hmove).elim

theorem Phase.of_stops (h : Phase sql c) (hresult : c.env.m_pResult = .null) {s : ParseState}
    (hstop : Lalr.Stops sqlTables sqlActions c .accepted s) :
    s.m_pResult = .null ∨ ∃ first, statements sql = first :: statements s.input := by
  cases hstop with
  | @accept r loc s htodo haction =>
    obtain ⟨top, below, hstack, -, hreduce⟩ := Lalr.todo_reduce htodo
    obtain ⟨hinput, hr⟩ := accept_input haction
    have htop := defaultRule_accepts hreduce hr
    cases h with
    | fresh _ _ hone hstate | stuck hone hstate =>
      rw [hstack] at hone
      cases hone
      omega
    | inside _ _ _ _ hne =>
      have := hne top below hstack
      omega
    | @closed first hsplit => exact .inr ⟨first, by rw [hinput]; exact hsplit⟩
  | final => exact .inl hresult

/-- The text behind a statement that is parsed has the other statements. -/
theorem statements_of_parse {s s' : ParseState} (h : parse sql s = .ok () s') :
    ∃ first, statements (sql.takeWhile (· != 0)) = first :: statements s'.input := by
  obtain ⟨s2, hparse, hrun⟩ := accepted_of_parse h
  have hends : s2.m_pResult = .null ∨ ∃ first, statements (sql.takeWhile (· != 0)) = first :: statements s2.input := by
    refine Lalr.run_rule (I := fun c => Phase (sql.takeWhile (· != 0)) c ∧ c.env.m_pResult = .null)
      (Q := fun o s => o = .accepted → s.m_pResult = .null ∨
        ∃ first, statements (sql.takeWhile (· != 0)) = first :: statements s.input) ?_ ?_ ⟨?_, rfl⟩ hrun rfl
    · exact fun d d' _ hd hmove => ⟨hd.1.of_moves hmove, result_of_moves hd.2 hmove⟩
    · rintro d o env _ hd hstop rfl
      exact hd.1.of_stops hd.2 hstop
    · exact .fresh .nil (fun p hp => absurd hp List.not_mem_nil) rfl rfl rfl
  have hrest : s2.m_pResult ≠ .null ∧ s'.input = s2.input := by
    simp only [parse, Bind.bind, EStateM.bind, hparse, StateRules.get_run] at h
    cases hnode : s2.m_pResult with
    | null =>
      rw [hnode] at h
      cases h
    | node =>
      rw [hnode] at h
      refine ⟨by simp, ?_⟩
      simp only [rewrite] at h
      split at h
      · cases h
        rfl
      · cases h
  obtain hnull | ⟨first, hsplit⟩ := hends
  · exact (hrest.1 hnull).elim
  · exact ⟨first, by rw [hrest.2]; exact hsplit⟩

end LevelPgServer.SqlParser
