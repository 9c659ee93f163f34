import LevelPgServer.Common.ParserStops

/-! Whether a text for which an error was reported can still be parsed. -/

namespace LevelPgServer.SqlParser

open ParseNode

/-- Parsing ends with a `ParseException`. -/
def ThrowsParse {α : Type} : EStateM.Result Fault ParseState α → Prop
  | .error (.thrown (.parse _ _)) _ => True
  | _ => False

/-- `yyerror` has been called while the text was parsed. -/
def Reports (sql : Bytes) (s : ParseState) : Prop :=
  match parseSql sql s with
  | .ok _ s' => s'.m_sError ≠ ""
  | .error _ s' => s'.m_sError ≠ ""

def scans (s : ParseState) : Option LexAction := (ScanRule.scan lexRules s.input).map fun m => m.2.action

/-- The step reports an error and goes on: the scanner matches a string without its closing quote, or a
minus is applied to what is no number. -/
def slips (c : SqlConfig) : Bool :=
  match sqlTables.todo c with
  | .lex => scans c.env == some .unterminated
  | .reduce r =>
    r == 27 && ((Rhs.value (sqlTables.rhs r c) 2).type != .int && (Rhs.value (sqlTables.rhs r c) 2).type != .float)
  | _ => false

/-- Some of the next `n` steps slips. -/
def slipsWithin : Nat → SqlConfig → Bool
  | 0, _ => false
  | n + 1, c =>
    slips c ||
      match Lalr.step sqlTables sqlActions c with
      | .run c' => slipsWithin n c'
      | .stop _ _ => false

/-- The state in which `yyparse` is called. -/
def opened (sql : Bytes) (s : ParseState) : ParseState :=
  { s with
    m_sSql := sql
    input := sql.takeWhile (· != 0)
    m_iCurrent := sql.length + 1
    m_yycolumn := 1
    m_pResult := .null
    m_sError := ""
    m_bindParamNodes := [] }

def textSlips (sql : Bytes) (s : ParseState) : Bool :=
  slipsWithin (stepBound (sql.takeWhile (· != 0)).length) (start (opened sql s))

theorem parseSql_eq (sql : Bytes) (s : ParseState) :
    (∃ s', parseSql sql s = .error bufferFull s') ∨ parseSql sql s = yyparse (opened sql s) := by
  unfold parseSql initParse
  by_cases hfit : blockSize < 0 + (sql.length + 1)
  · left
    simp only [Bind.bind, EStateM.bind, StateRules.modify_run, alloc, hfit, if_true]
    exact ⟨_, rfl⟩
  · right
    simp only [Bind.bind, EStateM.bind, StateRules.modify_run, alloc, hfit, if_false]
    rw [show 0 + (sql.length + 1) = sql.length + 1 from Nat.zero_add _]
    rfl

/-- A run that stops and has no slip in it reaches no configuration that slips. -/
theorem not_slips_of_reaches {n : Nat} {c d : SqlConfig} {res : Lalr.Outcome Fault × ParseState}
    (hrun : Lalr.run sqlTables sqlActions n c = some res) (hno : slipsWithin n c = false)
    (h : Lalr.Reaches sqlTables sqlActions c d) : slips d = false := by
  induction h generalizing n with
  | refl c =>
    cases n with
    | zero => cases hrun
    | succ n =>
      unfold slipsWithin at hno
      exact (Bool.or_eq_false_iff.mp hno).1
  | step hstep _ ih =>
    cases n with
    | zero => cases hrun
    | succ n =>
      unfold slipsWithin at hno
      unfold Lalr.run at hrun
      rw [hstep] at hno hrun
      exact ih hrun (Bool.or_eq_false_iff.mp hno).2

/-- What holds between two steps of a run without a slip: an error has been reported only when the token
`ERROR` is about to end the run. -/
structure Sound (c : SqlConfig) : Prop where
  path : sqlGround.Path c.stack
  result : c.env.m_pResult = .null
  error : c.env.m_sError ≠ "" → ∀ top below, c.stack = top :: below →
    top.state = 34 ∨ c.lookahead = some 46 ∧ top.state ≠ 42 ∧ top.state ≠ 44

def Ends : Lalr.Outcome Fault → ParseState → Prop
  | .thrown f, _ => f = bufferFull
  | .underflow, _ => False
  | _, s => s.m_sError ≠ "" → s.m_pResult = .null

/-- Where the tables look at the next token, no semicolon and no `ERROR` has been shifted. -/
theorem ne_of_inconsistent {s : Nat} (h : sqlTables.consistent s = false) : s ≠ 34 ∧ s ≠ 42 ∧ s ≠ 44 := by
  refine ⟨?_, ?_, ?_⟩ <;> rintro rfl <;> rw [consistent_of_mem (by decide)] at h <;> cases h

theorem no_slip_lex {c : SqlConfig} (hslip : slips c = false) (htodo : sqlTables.todo c = .lex) {n : Nat}
    {r : ScanRule UInt8 LexAction} (hscan : ScanRule.scan lexRules c.env.input = some (n, r)) :
    r.action ≠ .unterminated := by
  unfold slips at hslip
  rw [htodo] at hslip
  simpa [scans, hscan] using hslip

theorem no_slip_minus {c : SqlConfig} (hslip : slips c = false) (htodo : sqlTables.todo c = .reduce 27)
    (hint : (Rhs.value (sqlTables.rhs 27 c) 2).type ≠ .int) : (Rhs.value (sqlTables.rhs 27 c) 2).type = .float := by
  unfold slips at hslip
  rw [htodo] at hslip
  simpa [hint] using hslip

theorem Sound.of_moves {c c' : SqlConfig} (hsound : Sound c) (hslip : slips c = false)
    (hmove : Lalr.Moves sqlTables sqlActions c c') : Sound c' := by
  have hpath := Lalr.Ground.Path.of_moves hsound.path hmove
  cases hmove with
  | @lex t env htodo hlex =>
    obtain ⟨top, below, hstack, hstate, hlook⟩ := Lalr.todo_lex htodo
    obtain ⟨h34, h42, h44⟩ := ne_of_inconsistent hstate
    have hclean : c.env.m_sError = "" := by
      by_contra herror
      obtain h | ⟨h, -, -⟩ := hsound.error herror top below hstack
      · exact h34 h
      · rw [hlook] at h
        cases h
    obtain ⟨-, heof⟩ | ⟨n, r, yyleng, res, hscan, -, -, hlexes, hres⟩ := lex_cases c.env
    · rw [heof] at hlex
      cases hlex
      exact ⟨hpath, hsound.result, fun herror => (herror hclean).elim⟩
    · rw [hres] at hlex
      cases hlexes with
      | token hq | skip hq =>
        cases hlex
        exact ⟨hpath, hq.result.trans hsound.result, fun herror => (herror (hq.error.trans hclean)).elim⟩
      | full => cases hlex
      | error hrep =>
        cases hlex
        refine ⟨hpath, hrep.result, fun _ top' below' hstack' => .inr ⟨rfl, ?_⟩⟩
        obtain ⟨rfl, -⟩ := List.cons.inj (hstack.symm.trans hstack')
        exact ⟨h42, h44⟩
      | unterminated ha => exact (no_slip_lex hslip htodo hscan ha).elim
  | @shift s htodo =>
    obtain ⟨top, below, t, hstack, hstate, hlook, hshift⟩ := Lalr.todo_shift htodo
    refine ⟨hpath, hsound.result, fun herror top' below' hstack' => ?_⟩
    obtain ⟨rfl, -⟩ := List.cons.inj hstack'
    obtain h | ⟨h, -, -⟩ := hsound.error herror top below hstack
    · exact ((ne_of_inconsistent hstate).1 h).elim
    · rw [hlook] at h
      cases h
      exact .inl (shift_errorToken hshift)
  | @reduce r base rest v loc env htodo hdrop haction =>
    obtain ⟨top, below, hstack, -, hreduce⟩ := Lalr.todo_reduce htodo
    have hquiet : Quiet c.env env := by
      have hred := action_reduces r (sqlTables.rhs r c) loc c.env
      rw [show action r (sqlTables.rhs r c) loc c.env = .ok (.value v) env from haction] at hred
      cases hred with
      | value h => exact h
      | minus hr hint hfloat =>
        subst hr
        exact (hfloat (no_slip_minus hslip htodo hint)).elim
    refine ⟨hpath, hquiet.result.trans hsound.result, fun herror top' below' hstack' => ?_⟩
    rw [hquiet.error] at herror
    obtain ⟨rfl, -⟩ := List.cons.inj hstack'
    obtain h | ⟨h, -, -⟩ := hsound.error herror top below hstack
    · have hrule : defaultRule top.state = some r := hreduce
      rw [h, defaultRule_errorToken] at hrule
      obtain rfl := Option.some.inj hrule
      have hraised : (.ok .error c.env : EStateM.Result Fault ParseState Verdict) = .ok (.value v) env := haction
      cases hraised
    · exact .inr ⟨h, goto_ne base.state (sqlTables.lhs r)⟩

theorem Sound.of_stops {c : SqlConfig} {o : Lalr.Outcome Fault} {s : ParseState} (hsound : Sound c)
    (hslip : slips c = false) (hstop : Lalr.Stops sqlTables sqlActions c o s) : Ends o s := by
  have hunder : ¬ Lalr.Stops sqlTables sqlActions c .underflow s := hsound.path.not_underflow
  cases hstop with
  | lex htodo hlex =>
    obtain ⟨-, heof⟩ | ⟨n, r, yyleng, res, -, -, -, hlexes, hres⟩ := lex_cases c.env
    · rw [heof] at hlex
      cases hlex
    · rw [hres] at hlex
      cases hlexes with
      | token | skip | error | unterminated => cases hlex
      | full =>
        cases hlex
        rfl
  | @action r loc e s htodo haction =>
    have hred := action_reduces r (sqlTables.rhs r c) loc c.env
    rw [show action r (sqlTables.rhs r c) loc c.env = .error e s from haction] at hred
    cases hred with
    | full => rfl
    | crash hr hnull =>
      subst hr
      have hfloat := no_slip_minus hslip htodo (by rw [hnull]; decide)
      rw [hnull] at hfloat
      cases hfloat
  | @accept r loc s htodo haction =>
    intro herror
    obtain ⟨top, below, hstack, -, hreduce⟩ := Lalr.todo_reduce htodo
    have hred := action_reduces r (sqlTables.rhs r c) loc c.env
    rw [show action r (sqlTables.rhs r c) loc c.env = .ok .accept s from haction] at hred
    cases hred with
    | accept hr hkeep =>
      rw [hkeep] at herror
      have hstate := defaultRule_accepts hreduce hr
      obtain h | ⟨-, h42, h44⟩ := hsound.error herror top below hstack
      · rw [h] at hstate
        omega
      · omega
  | @error r loc s htodo haction =>
    intro _
    have hred := action_reduces r (sqlTables.rhs r c) loc c.env
    rw [show action r (sqlTables.rhs r c) loc c.env = .ok .error s from haction] at hred
    cases hred with
    | raised hq => exact hq.result.trans hsound.result
    | error hrep => exact hrep.result
  | final => exact fun _ => hsound.result
  | rejected => exact fun _ => rfl
  | exhausted => exact fun _ => rfl
  | empty htodo => exact hunder (.empty htodo)
  | underflow htodo hdrop => exact hunder (.underflow htodo hdrop)

theorem start_sound (sql : Bytes) (s : ParseState) : Sound (start (opened sql s)) :=
  ⟨start_path _, rfl, fun h => (h rfl).elim⟩

/-- A parse without a slip throws when an error has been reported in it. -/
theorem throws_of_reports {sql : Bytes} {s : ParseState} (hno : textSlips sql s = false) (hreports : Reports sql s) :
    ThrowsParse (parse sql s) := by
  obtain ⟨s', hfull⟩ | hparse := parseSql_eq sql s
  · simp only [parse, Bind.bind, EStateM.bind, hfull]
    trivial
  · obtain ⟨o, s', hrun, -⟩ := yyparse_stops (opened sql s)
    have hends : Ends o s' := by
      refine Lalr.run_rule (I := Sound) (Q := Ends) ?_ ?_ (start_sound sql s) hrun
      · exact fun d d' hd hsound hmove => hsound.of_moves (not_slips_of_reaches hrun hno hd) hmove
      · exact fun d o env hd hsound hstop => hsound.of_stops (not_slips_of_reaches hrun hno hd) hstop
    unfold Reports at hreports
    rw [hparse] at hreports
    cases o with
    | thrown f =>
      obtain rfl : f = bufferFull := hends
      simp only [parse, Bind.bind, EStateM.bind, hparse, yyparse, hrun]
      trivial
    | underflow => exact hends.elim
    | accepted | aborted | exhausted =>
      simp only [yyparse, hrun] at hreports
      have hnull : s'.m_pResult = .null := hends hreports
      simp only [parse, Bind.bind, EStateM.bind, hparse, yyparse, hrun, StateRules.get_run, hnull]
      trivial

/-! A report is never taken back, and every slip makes one. -/

theorem error_of_moves {c c' : SqlConfig} (herror : c.env.m_sError ≠ "") (hmove : Lalr.Moves sqlTables sqlActions c c') :
    c'.env.m_sError ≠ "" := by
  cases hmove with
  | @lex t env htodo hlex =>
    obtain ⟨-, heof⟩ | ⟨n, r, yyleng, res, -, -, -, hlexes, hres⟩ := lex_cases c.env
    · rw [heof] at hlex
      cases hlex
      exact herror
    · rw [hres] at hlex
      cases hlexes with
      | token hq | skip hq =>
        cases hlex
        exact fun h => herror (hq.error.symm.trans h)
      | full => cases hlex
      | error hrep | unterminated _ hrep =>
        cases hlex
        exact hrep.error
  | shift => exact herror
  | @reduce r base rest v loc env htodo hdrop haction =>
    have hred := action_reduces r (sqlTables.rhs r c) loc c.env
    rw [show action r (sqlTables.rhs r c) loc c.env = .ok (.value v) env from haction] at hred
    cases hred with
    | value hq => exact fun h => herror (hq.error.symm.trans h)
    | minus _ _ _ hrep => exact hrep.error

theorem error_of_accepted {c : SqlConfig} {s : ParseState} (herror : c.env.m_sError ≠ "")
    (hstop : Lalr.Stops sqlTables sqlActions c .accepted s) : s.m_sError ≠ "" := by
  cases hstop with
  | @accept r loc s htodo haction =>
    have hred := action_reduces r (sqlTables.rhs r c) loc c.env
    rw [show action r (sqlTables.rhs r c) loc c.env = .ok .accept s from haction] at hred
    cases hred with
    | accept _ hkeep => rwa [hkeep]
  | final => exact herror

theorem minusAction_reports {rhs : Rhs} {loc : Location} {s s' : ParseState} {v : Verdict}
    (hint : (rhs.value 2).type ≠ .int) (hfloat : (rhs.value 2).type ≠ .float)
    (h : minusAction rhs loc s = .ok v s') : s'.m_sError ≠ "" := by
  have hslip : (do
      yyerror (rhs.loc 2) "minus is not supporteed"
      return .value (rhs.value 1) : ParseM Verdict) s = .ok v s' → s'.m_sError ≠ "" := by
    intro h
    cases h
    exact (reported_of_ne (rhs.loc 2) (by decide) s).error
  unfold minusAction at h
  cases hnode : rhs.value 2 with
  | null =>
    rw [hnode] at h
    cases h
  | node type op e w cs =>
    rw [hnode] at h hint hfloat
    cases type <;> first | exact (hint rfl).elim | exact (hfloat rfl).elim | exact hslip h

theorem slip_reports {c c' : SqlConfig} (hslip : slips c = true) (hmove : Lalr.Moves sqlTables sqlActions c c') :
    c'.env.m_sError ≠ "" := by
  unfold slips at hslip
  cases hmove with
  | @lex t env htodo hlex =>
    rw [htodo] at hslip
    have hscans : scans c.env = some .unterminated := by simpa using hslip
    obtain ⟨⟨n, r⟩, hscan, haction⟩ := Option.map_eq_some_iff.mp hscans
    obtain ⟨hinput, -⟩ | ⟨n', r', hscan', -, -, hyylex⟩ := yylex_cases c.env
    · rw [hinput] at hscan
      exact (scan_nil hscan).elim
    · rw [hscan] at hscan'
      cases hscan'
      have hunterminated : r.action = .unterminated := haction
      rw [lex_eq, hyylex, hunterminated] at hlex
      cases hlex
      exact append_ne (by decide) _
  | shift htodo =>
    rw [htodo] at hslip
    cases hslip
  | @reduce r base rest v loc env htodo hdrop haction =>
    rw [htodo] at hslip
    have hminus : r = 27 ∧ (Rhs.value (sqlTables.rhs r c) 2).type ≠ .int ∧ (Rhs.value (sqlTables.rhs r c) 2).type ≠ .float := by
      simpa using hslip
    obtain ⟨rfl, hint, hfloat⟩ := hminus
    exact minusAction_reports hint hfloat haction

theorem reports_of_slips {n m : Nat} {c : SqlConfig} {s : ParseState} (hslips : slipsWithin n c = true)
    (hrun : Lalr.run sqlTables sqlActions m c = some (.accepted, s)) : s.m_sError ≠ "" := by
  induction n generalizing c m with
  | zero => cases hslips
  | succ n ih =>
    cases m with
    | zero => cases hrun
    | succ m =>
      unfold slipsWithin at hslips
      unfold Lalr.run at hrun
      cases hstep : Lalr.step sqlTables sqlActions c with
      | stop o env =>
        rw [hstep] at hslips hrun
        cases hrun
        have hslip : slips c = true := by simpa using hslips
        have hstop := Lalr.step_stop hstep
        unfold slips at hslip
        cases hstop with
        | @accept r loc s htodo haction =>
          rw [htodo] at hslip
          have hr : r = 27 := by
            have := (Bool.and_eq_true _ _).mp hslip
            simpa using this.1
          have hred := action_reduces r (sqlTables.rhs r c) loc c.env
          rw [show action r (sqlTables.rhs r c) loc c.env = .ok .accept s from haction] at hred
          cases hred with
          | accept hr' => omega
        | final htodo =>
          rw [htodo] at hslip
          cases hslip
      | run c' =>
        rw [hstep] at hslips hrun
        obtain hslip | hlater := (Bool.or_eq_true _ _).mp hslips
        · have hfirst := slip_reports hslip (Lalr.step_run hstep)
          refine Lalr.run_rule (I := fun c => c.env.m_sError ≠ "")
            (Q := fun o s => o = .accepted → s.m_sError ≠ "") ?_ ?_ hfirst hrun rfl
          · exact fun d d' _ herror hmove => error_of_moves herror hmove
          · rintro d o env _ herror hstop rfl
            exact error_of_accepted herror hstop
        · exact ih hlater hrun

theorem result_of_moves {c c' : SqlConfig} (hc : c.env.m_pResult = .null) (hmove : Lalr.Moves sqlTables sqlActions c c') :
    c'.env.m_pResult = .null := by
  cases hmove with
  | @lex t env htodo hlex =>
    obtain ⟨-, heof⟩ | ⟨n, r, yyleng, res, -, -, -, hlexes, hres⟩ := lex_cases c.env
    · rw [heof] at hlex
      cases hlex
      exact hc
    · rw [hres] at hlex
      cases hlexes with
      | token hq | skip hq =>
        cases hlex
        exact hq.result.trans hc
      | full => cases hlex
      | error hrep | unterminated _ hrep =>
        cases hlex
        exact hrep.result
  | shift => exact hc
  | @reduce r base rest v loc env htodo hdrop haction =>
    have hred := action_reduces r (sqlTables.rhs r c) loc c.env
    rw [show action r (sqlTables.rhs r c) loc c.env = .ok (.value v) env from haction] at hred
    cases hred with
    | value hq => exact hq.result.trans hc
    | minus _ _ _ hrep => exact hrep.result

theorem accepted_of_result {n : Nat} {c : SqlConfig} {o : Lalr.Outcome Fault} {s : ParseState}
    (hc : c.env.m_pResult = .null) (hrun : Lalr.run sqlTables sqlActions n c = some (o, s))
    (hresult : s.m_pResult ≠ .null) : o = .accepted ∨ ∃ f, o = .thrown f := by
  have hrule : ∀ o s, Lalr.run sqlTables sqlActions n c = some (o, s) →
      o = .accepted ∨ (∃ f, o = .thrown f) ∨ s.m_pResult = .null := by
    intro o s hrun
    refine Lalr.run_rule (I := fun c => c.env.m_pResult = .null)
      (Q := fun o s => o = .accepted ∨ (∃ f, o = .thrown f) ∨ s.m_pResult = .null) ?_ ?_ hc hrun
    · exact fun d d' _ hd hmove => result_of_moves hd hmove
    · intro d o s _ hd hstop
      cases hstop with
      | lex | action => exact .inr (.inl ⟨_, rfl⟩)
      | accept | final => exact .inl rfl
      | @error r loc s htodo haction =>
        have hred := action_reduces r (sqlTables.rhs r d) loc d.env
        rw [show action r (sqlTables.rhs r d) loc d.env = .ok .error s from haction] at hred
        cases hred with
        | raised hq => exact .inr (.inr (hq.result.trans hd))
        | error hrep => exact .inr (.inr hrep.result)
      | rejected | exhausted => exact .inr (.inr rfl)
      | empty | underflow => exact .inr (.inr hd)
  obtain h | h | h := hrule o s hrun
  · exact .inl h
  · exact .inr h
  · exact (hresult h).elim

theorem accepted_of_parse {sql : Bytes} {s s' : ParseState} (h : parse sql s = .ok () s') :
    ∃ s'', parseSql sql s = .ok () s'' ∧
      Lalr.run sqlTables sqlActions (stepBound (sql.takeWhile (· != 0)).length) (start (opened sql s)) =
        some (.accepted, s'') := by
  obtain ⟨t, hfull⟩ | hparse := parseSql_eq sql s
  · simp only [parse, Bind.bind, EStateM.bind, hfull] at h
    cases h
  · obtain ⟨o, s'', hrun, hunder⟩ := yyparse_stops (opened sql s)
    cases o with
    | thrown f =>
      simp only [parse, Bind.bind, EStateM.bind, hparse, yyparse, hrun] at h
      cases h
    | underflow => exact (hunder rfl).elim
    | accepted => exact ⟨s'', hparse.trans (by simp only [yyparse, hrun]), hrun⟩
    | aborted | exhausted =>
      have hnull : s''.m_pResult = .null := by
        by_contra hresult
        obtain h | ⟨f, h⟩ := accepted_of_result rfl hrun hresult <;> cases h
      simp only [parse, Bind.bind, EStateM.bind, hparse, yyparse, hrun, StateRules.get_run,
        hnull] at h
      cases h

theorem reports_iff_slips {sql : Bytes} {s s' : ParseState} (hok : parse sql s = .ok () s') :
    Reports sql s ↔ textSlips sql s = true := by
  constructor
  · intro hreports
    by_contra hno
    have hthrows := throws_of_reports (Bool.eq_false_iff.mpr hno) hreports
    rw [hok] at hthrows
    exact hthrows
  · intro hslips
    obtain ⟨s'', hparse, hrun⟩ := accepted_of_parse hok
    unfold Reports
    rw [hparse]
    exact reports_of_slips hslips hrun

/-- Where no step slips a reported error ends in a `ParseException`; a text that is parsed all the same has
reported an error exactly if a step of it slips. -/
theorem report_throws_unless_slips (sql : Bytes) (s : ParseState) :
    (textSlips sql s = false → Reports sql s → ThrowsParse (parse sql s)) ∧
      ∀ s', parse sql s = .ok () s' → (Reports sql s ↔ textSlips sql s = true) :=
  ⟨throws_of_reports, fun _ hok => reports_iff_slips hok⟩

theorem report_throws_unless_slips_null :
    ThrowsParse (parse (bytes "values (null)") .fresh) := by
  refine (report_throws_unless_slips (bytes "values (null)") .fresh).1 (by decide +kernel) ?_
  unfold Reports
  have herror : (match parseSql (bytes "values (null)") .fresh with
    | .ok _ s' => s'.m_sError != ""
    | .error _ s' => s'.m_sError != "") = true := by decide +kernel
  split <;> simp_all

mutual

/-- A predicate without ORs and INs. -/
def isConjunction : ParseNode → Bool
  | .null => true
  | .node _ op _ _ children =>
    match op with
    | .or | .compIn | .compNotIn => false
    | .and => allConjunctions children
    | _ => true

def allConjunctions : List ParseNode → Bool
  | [] => true
  | c :: cs => isConjunction c && allConjunctions cs

end

mutual

/-- A tree without lists, whose predicates are conjunctions. -/
def isPlain : ParseNode → Bool
  | .null => true
  | .node type op sExpr sValue children =>
    match type with
    | .list => false
    | .op => isConjunction (.node type op sExpr sValue children)
    | _ => allPlain children

def allPlain : List ParseNode → Bool
  | [] => true
  | c :: cs => isPlain c && allPlain cs

end

mutual

theorem rewriteOp_conjunction : ∀ (p : ParseNode), isConjunction p = true → QueryRewritter.rewriteOp p = pure (p, false)
  | .null, _ => rfl
  | .node type op sExpr sValue children, h => by
    cases op with
    | or | compIn | compNotIn => cases h
    | and => simp [QueryRewritter.rewriteOp, rewriteOps_conjunctions children h]
    | _ => rfl

theorem rewriteOps_conjunctions : ∀ (ps : List ParseNode), allConjunctions ps = true →
    QueryRewritter.rewriteOps ps = pure (ps, false)
  | [], _ => rfl
  | p :: ps, h => by
    obtain ⟨hp, hps⟩ := Bool.and_eq_true_iff.mp h
    simp [QueryRewritter.rewriteOps, rewriteOp_conjunction p hp, rewriteOps_conjunctions ps hps]

end

mutual

theorem rewrite_plain : ∀ (p : ParseNode), isPlain p = true → QueryRewritter.rewrite p = pure p
  | .null, _ => by rw [QueryRewritter.rewrite]
  | .node type op sExpr sValue children, h => by
    cases type with
    | list => cases h
    | op => simp [QueryRewritter.rewrite, rewriteOp_conjunction _ h]
    | _ => simp [QueryRewritter.rewrite, rewriteChildren_plain children h]

theorem rewriteChildren_plain : ∀ (ps : List ParseNode), allPlain ps = true → QueryRewritter.rewriteChildren ps = pure ps
  | [], _ => by rw [QueryRewritter.rewriteChildren]
  | p :: ps, h => by
    obtain ⟨hp, hps⟩ := Bool.and_eq_true_iff.mp h
    simp [QueryRewritter.rewriteChildren, rewrite_plain p hp, rewriteChildren_plain ps hps]

end

def makesPlain : EStateM.Result Fault ParseState Unit → Bool
  | .ok _ s => s.m_pResult.type != .none && isPlain s.m_pResult
  | .error _ _ => false

theorem parse_of_makesPlain {sql : Bytes} {s : ParseState} (h : makesPlain (parseSql sql s) = true) :
    ∃ s', parse sql s = .ok () s' := by
  cases hparse : parseSql sql s with
  | error e s' =>
    rw [hparse] at h
    cases h
  | ok a s' =>
    rw [hparse] at h
    obtain ⟨hnode, hplain⟩ := Bool.and_eq_true_iff.mp h
    cases hresult : s'.m_pResult with
    | null =>
      rw [hresult] at hnode
      cases hnode
    | node type op sExpr sValue children =>
      rw [hresult] at hplain
      simp only [parse, Bind.bind, EStateM.bind, hparse, StateRules.get_run, hresult, rewrite, rewrite_plain _ hplain]
      exact ⟨_, rfl⟩

/-- With its unterminated string the text is parsed as `show tables`. -/
theorem reported_error_not_thrown :
    ¬ (Reports (bytes "show 'x\ntables;") .fresh → ThrowsParse (parse (bytes "show 'x\ntables;") .fresh)) := by
  have hslips : textSlips (bytes "show 'x\ntables;") .fresh = true := by decide +kernel
  have hshape : makesPlain (parseSql (bytes "show 'x\ntables;") .fresh) = true := by decide +kernel
  obtain ⟨s', hok⟩ := parse_of_makesPlain hshape
  intro h
  have hthrows := h ((reports_iff_slips hok).mpr hslips)
  rw [hok] at hthrows
  exact hthrows

end LevelPgServer.SqlParser
