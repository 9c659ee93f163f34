import LevelPgServer.Common.NumberScan
import LevelPgServer.Common.SignedLiteral
import LevelPgServer.Lib.LalrPaths

/-! What the parser makes of a number under signs and parentheses. -/

namespace LevelPgServer.SqlParser

open ParseNode Lalr

theorem sign_states {s : Nat} (h : shift s 32 = some 32) :
    s ≠ sqlTables.final ∧ sqlTables.consistent s = false ∧ shift s 6 = some 26 ∧ shift s 10 = some 29 ∧
      shift s 107 = some 35 ∧ shift s 31 = some 31 ∧ goto s 114 ∉ [26, 29, 31, 32, 35] := by
  have hall : (List.range 161).all (fun s => shift s 32 != some 32 ||
      s != sqlTables.final && !sqlTables.consistent s && shift s 6 == some 26 && shift s 10 == some 29 &&
        shift s 107 == some 35 && shift s 31 == some 31 && !([26, 29, 31, 32, 35].contains (goto s 114))) = true := by
    decide +kernel
  have hlt : s < 161 := by
    obtain ⟨row, hmem, -, -⟩ := shift_row h
    exact List.mem_range.mp (List.of_mem_zip hmem).2
  have hs := List.all_eq_true.mp hall s (List.mem_range.mpr hlt)
  simp only [h, bne_self_eq_false, Bool.false_or, Bool.and_eq_true, bne_iff_ne, Bool.not_eq_true', beq_iff_eq,
    List.contains_eq_mem, decide_eq_false_iff_not] at hs
  obtain ⟨⟨⟨⟨⟨⟨hfinal, hcons⟩, h6⟩, h10⟩, h107⟩, h31⟩, hgoto⟩ := hs
  exact ⟨hfinal, hcons, h6, h10, h107, h31, hgoto⟩

/-- The scanner has gone over `x`, and nodes of the size `cost` have been made. -/
structure Passed (s s' : ParseState) (x rest : Bytes) (cost : Nat) : Prop where
  before : s.input = x ++ rest
  behind : s'.input = rest
  sql : s'.m_sSql = s.m_sSql
  column : s'.m_yycolumn = s.m_yycolumn + x.length
  current : s'.m_iCurrent = s.m_iCurrent + cost

namespace Passed

variable {s s' s'' : ParseState} {x y rest rest' : Bytes} {m n : Nat}

theorem refl (s : ParseState) : Passed s s [] s.input 0 := ⟨rfl, rfl, rfl, rfl, rfl⟩

theorem trans (h : Passed s s' x rest m) (h' : Passed s' s'' y rest' n) : Passed s s'' (x ++ y) rest' (m + n) where
  before := by rw [h.before, ← h.behind, h'.before, List.append_assoc]
  behind := h'.behind
  sql := h'.sql.trans h.sql
  column := by rw [h'.column, h.column, List.length_append, Nat.add_assoc]
  current := by rw [h'.current, h.current, Nat.add_assoc]

theorem of_advance (h : s.input = x ++ rest) : Passed s (advance x.length s) x rest 0 where
  before := h
  behind := by
    change s.input.drop x.length = rest
    rw [h, List.drop_left]
  sql := rfl
  column := rfl
  current := rfl

theorem at_ (h : Passed s s' x rest m) (hat : At s) : At s' where
  column := by
    rw [h.column]
    exact hat.column.trans (Nat.le_add_right _ _)
  input := by
    have hcolumn : s.m_yycolumn + x.length - 1 = s.m_yycolumn - 1 + x.length := by
      have := hat.column
      omega
    have hdrop := hat.input.drop x.length
    rw [h.before, List.drop_left, List.drop_drop] at hdrop
    rw [h.behind, h.sql, h.column, hcolumn]
    exact hdrop

end Passed

section Scanner

variable {s : ParseState} {r : ScanRule UInt8 LexAction} {n : Nat} {c : UInt8} {rest : Bytes}

theorem lex_blank (hscan : ScanRule.scan lexRules s.input = some (n, r)) (haction : r.action = .comment)
    (htrailing : r.trailing = 0) : sqlActions.lex s = .ok none (advance n s) := by
  rw [lex_eq, yylex_at hscan, haction, htrailing]
  rfl

theorem lex_character (hscan : ScanRule.scan lexRules s.input = some (1, r)) (haction : r.action = .character)
    (htrailing : r.trailing = 0) (hinput : s.input = c :: rest) :
    sqlActions.lex s = .ok (some (yytranslateChar c)) (advance 1 s) := by
  rw [lex_eq, yylex_at hscan, haction, htrailing, hinput]
  rfl

def Literal.symbol (l : Literal) : Nat := if l.isInt then 6 else 10

def Literal.type (l : Literal) : NodeType := if l.isInt then .int else .float

theorem lex_number (l : Literal) (hrest : Literal.Apart rest) (hat : At s) (hinput : s.input = l.text ++ rest) :
    sqlActions.lex s =
      if blockSize < s.m_iCurrent + sizeofNode then .error bufferFull (advance l.text.length s)
      else .ok (some l.symbol) { advance l.text.length s with
        m_iCurrent := s.m_iCurrent + sizeofNode
        yylval := node l.type .none l.text l.text [] } := by
  obtain ⟨r, hscan, haction, htrailing⟩ := scan_number l hrest
  rw [← hinput] at hscan
  have hpos : 0 < l.text.length := by
    obtain ⟨c, t, ht, -⟩ := l.head_text
    rw [ht]
    exact Nat.succ_pos _
  have hexpr := getExpr_advance hat hinput hpos
  rw [lex_eq, yylex_at hscan, haction, htrailing]
  unfold Literal.action Literal.symbol Literal.type
  have hroom : (advance l.text.length s).m_iCurrent = s.m_iCurrent := rfl
  by_cases hfull : blockSize < s.m_iCurrent + sizeofNode
  · rw [if_pos hfull]
    cases l.isInt with
    | true =>
      simp only [lexAct, Bind.bind, EStateM.bind, StateRules.get_run, newSimpleNode_run, Nat.sub_zero, if_true, hroom,
        if_pos hfull]
    | false =>
      simp only [lexAct, Bind.bind, EStateM.bind, StateRules.get_run, newSimpleNode_run, Nat.sub_zero,
        Bool.false_eq_true, if_false, hroom, if_pos hfull]
  · rw [if_neg hfull]
    cases l.isInt with
    | true =>
      simp only [lexAct, Bind.bind, EStateM.bind, StateRules.get_run, newSimpleNode_run, Nat.sub_zero, if_true, hexpr,
        hroom, if_neg hfull]
      rfl
    | false =>
      simp only [lexAct, Bind.bind, EStateM.bind, StateRules.get_run, newSimpleNode_run, Nat.sub_zero,
        Bool.false_eq_true, if_false, hexpr, hroom, if_neg hfull]
      rfl

end Scanner

abbrev SqlFrame := Lalr.Frame ParseNode Location

/-- The stack with `top` on it, with nothing read ahead. -/
def before (top : SqlFrame) (below : List SqlFrame) (s : ParseState) : SqlConfig where
  stack := top :: below
  lookahead := none
  env := s

/-- An expression lies on `top`, and `rest` is left. -/
def IsRead (top : SqlFrame) (below : List SqlFrame) (rest : Bytes) (d : SqlConfig) : Prop :=
  ∃ f, d.stack = f :: top :: below ∧ f.state = goto top.state 114 ∧ d.lookahead = none ∧ d.env.input = rest

/-- The parser is at work on what lies on `top`. -/
def Within (top : SqlFrame) (below : List SqlFrame) (rest : Bytes) (d : SqlConfig) : Prop :=
  top :: below <:+ d.stack ∧ ¬ IsRead top below rest d

/-- The run ends, or takes a semicolon, before anything is read. -/
def Lost (Q : SqlConfig → Prop) (rest : Bytes) (c : SqlConfig) : Prop :=
  ∃ d, Via sqlTables sqlActions Q c d ∧ Q d ∧
    ((∃ o s, step sqlTables sqlActions d = .stop o s) ∨ d.env.input.count 59 < rest.count 59)

section Within

variable {Q Q' : SqlConfig → Prop} {c c' d : SqlConfig} {rest rest' : Bytes} {top f g : SqlFrame}
  {below : List SqlFrame} {look : Option Nat} {s : ParseState}

theorem Lost.of_via (h : Via sqlTables sqlActions Q c c') (h' : Lost Q rest c') : Lost Q rest c := by
  obtain ⟨d, hvia, hd⟩ := h'
  exact ⟨d, h.trans hvia, hd⟩

theorem Lost.mono (hQ : ∀ d, Q d → Q' d) (hcount : rest.count 59 = rest'.count 59) (h : Lost Q rest c) :
    Lost Q' rest' c := by
  obtain ⟨d, hvia, hd, hlost⟩ := h
  rw [hcount] at hlost
  exact ⟨d, hvia.mono hQ, hQ d hd, hlost⟩

theorem Lost.of_stop {o : Outcome Fault} (hc : Q c) (h : step sqlTables sqlActions c = .stop o s) : Lost Q rest c :=
  ⟨c, .refl c, hc, .inl ⟨o, s, h⟩⟩

theorem within_top : Within top below rest { stack := top :: below, lookahead := look, env := s } := by
  refine ⟨List.suffix_rfl, ?_⟩
  rintro ⟨f, hstack, -⟩
  have hlen := congrArg List.length hstack
  simp at hlen

theorem within_one (hf : f.state ≠ goto top.state 114) :
    Within top below rest { stack := f :: top :: below, lookahead := look, env := s } := by
  refine ⟨List.suffix_cons f _, ?_⟩
  rintro ⟨g, hstack, hg, -⟩
  obtain rfl := (List.cons.inj hstack).1
  exact hf hg

theorem within_deep (fs : List SqlFrame) (hfs : 2 ≤ fs.length) :
    Within top below rest { stack := fs ++ top :: below, lookahead := look, env := s } := by
  refine ⟨List.suffix_append fs _, ?_⟩
  rintro ⟨g, hstack, -⟩
  have hlen := congrArg List.length hstack
  simp only [List.length_append, List.length_cons] at hlen
  omega

theorem within_token (hf : f.state ≠ goto top.state 114) (h : Within f (top :: below) rest' d) :
    Within top below rest d := by
  obtain ⟨hsuffix, -⟩ := h
  refine ⟨(List.suffix_cons f _).trans hsuffix, ?_⟩
  rintro ⟨g, hstack, hg, -⟩
  rw [hstack] at hsuffix
  obtain hsame | hlong := List.suffix_cons_iff.mp hsuffix
  · obtain rfl := (List.cons.inj hsame).1
    exact hf hg
  · have hlen := hlong.length_le
    simp at hlen

end Within

theorem input_suffix {c c' : SqlConfig} (h : Moves sqlTables sqlActions c c') : c'.env.input <:+ c.env.input := by
  cases h with
  | lex htodo hlex =>
    obtain ⟨hnil, -, rfl⟩ | ⟨p, ⟨n, r, -, -, hinput⟩, -⟩ := lex_piece hlex
    · exact List.suffix_rfl
    · rw [hinput]
      exact List.drop_suffix _ _
  | shift => exact List.suffix_rfl
  | reduce htodo hdrop haction =>
    have hinput := (action_reduces _ _ _ _).input haction
    rw [hinput]

theorem input_suffix_of_reaches {c c' : SqlConfig} (h : Reaches sqlTables sqlActions c c') :
    c'.env.input <:+ c.env.input := by
  induction h with
  | refl => exact List.suffix_rfl
  | step hstep _ ih => exact ih.trans (input_suffix (step_run hstep))

/-- The first time that an expression lies on `top` and `rest` is left, its value is the node. -/
def ReadsExpr (top : SqlFrame) (below : List SqlFrame) (s : ParseState) (rest : Bytes) (pNode : ParseNode) : Prop :=
  ∃ f s', Via sqlTables sqlActions (Within top below rest) (before top below s) (before f (top :: below) s') ∧
    f.state = goto top.state 114 ∧ s'.input = rest ∧ f.value = pNode

section ReadsExpr

variable {top : SqlFrame} {below : List SqlFrame} {s : ParseState} {rest : Bytes} {p q : ParseNode}

theorem ReadsExpr.unique (h : ReadsExpr top below s rest p) (h' : ReadsExpr top below s rest q) : p = q := by
  obtain ⟨f, t, hvia, hf, ht, rfl⟩ := h
  obtain ⟨f', t', hvia', hf', ht', rfl⟩ := h'
  have hsame := hvia.unique (fun hw => hw.2 ⟨f, rfl, hf, rfl, ht⟩) hvia' fun hw => hw.2 ⟨f', rfl, hf', rfl, ht'⟩
  have hstack := congrArg Config.stack hsame
  rw [(List.cons.inj hstack).1]

theorem ReadsExpr.not_lost (h : ReadsExpr top below s rest p) :
    ¬ Lost (Within top below rest) rest (before top below s) := by
  obtain ⟨f, t, hvia, hf, ht, -⟩ := h
  rintro ⟨d, hd, hwithin, hlost⟩
  have hafter := hd.after hwithin hvia fun hw => hw.2 ⟨f, rfl, hf, rfl, ht⟩
  obtain ⟨o, s', hstop⟩ | hcount := hlost
  · cases hafter with
    | refl => exact hwithin.2 ⟨f, rfl, hf, rfl, ht⟩
    | next _ hstep _ => cases hstop.symm.trans hstep
  · have hsuffix := input_suffix_of_reaches hafter.reaches
    have hle := hsuffix.sublist.count_le 59
    change t.input.count 59 ≤ _ at hle
    rw [ht] at hle
    omega

end ReadsExpr

section Steps

variable {Q : SqlConfig → Prop} {top f g : SqlFrame} {below : List SqlFrame} {s : ParseState} {rest : Bytes}
  {look : Option Nat}

theorem lost_of_full (hroom : ¬ below.length + 1 < YYMAXDEPTH)
    (hc : Q { stack := top :: below, lookahead := look, env := s }) :
    Lost Q rest { stack := top :: below, lookahead := look, env := s } :=
  .of_stop hc (step_exhausted (Nat.not_lt.mp hroom) look)

theorem run_blanks (hfinal : top.state ≠ sqlTables.final) (hcons : sqlTables.consistent top.state = false)
    (hroom : below.length + 1 < YYMAXDEPTH) (hQ : ∀ s, Q (before top below s)) {w : Bytes}
    (hw : ∀ c ∈ w, c ∈ [32, 9, 13, 10]) (hinput : s.input = w ++ rest) :
    ∃ s', Via sqlTables sqlActions Q (before top below s) (before top below s') ∧ Passed s s' w rest 0 := by
  induction w generalizing s with
  | nil =>
    have hrefl := Passed.refl s
    rw [hinput] at hrefl
    exact ⟨s, .refl _, hrefl⟩
  | cons c w ih =>
    obtain ⟨r, hscan, haction, htrailing⟩ := scan_single (single_blank (hw c List.mem_cons_self)) (w ++ rest)
    rw [← List.cons_append, ← hinput] at hscan
    have hstep : step sqlTables sqlActions (before top below s) = .run (before top below (advance 1 s)) := by
      rw [before, step_lex hroom hfinal hcons, lex_blank hscan haction htrailing]
      rfl
    have hone : Passed s (advance 1 s) [c] (w ++ rest) 0 := .of_advance (x := [c]) hinput
    obtain ⟨s', hvia, hpassed⟩ := ih (fun d hd => hw d (List.mem_cons_of_mem c hd)) hone.behind
    exact ⟨s', .next (hQ s) hstep hvia, hone.trans hpassed⟩

theorem run_character {c : UInt8} {t : Nat} (hfinal : top.state ≠ sqlTables.final)
    (hcons : sqlTables.consistent top.state = false) (hroom : below.length + 1 < YYMAXDEPTH)
    (hQ : ∀ look s, Q { stack := top :: below, lookahead := look, env := s })
    (hscan : ∃ r, ScanRule.scan lexRules (c :: rest) = some (1, r) ∧ r.action = .character ∧ r.trailing = 0)
    (hshift : sqlTables.shift top.state (yytranslateChar c) = some t) (hinput : s.input = c :: rest) :
    ∃ s', Via sqlTables sqlActions Q (before top below s)
        (before ⟨t, s'.yylval, ⟨s.m_yycolumn, s.m_yycolumn⟩⟩ (top :: below) s') ∧ Passed s s' [c] rest 0 := by
  obtain ⟨r, hscan, haction, htrailing⟩ := hscan
  rw [← hinput] at hscan
  have hlex : step sqlTables sqlActions (before top below s) =
      .run { stack := top :: below, lookahead := some (yytranslateChar c), env := advance 1 s } := by
    rw [before, step_lex hroom hfinal hcons, lex_character hscan haction htrailing hinput]
  exact ⟨advance 1 s, .next (hQ none s) hlex (.single (hQ _ _) (step_shift hroom hfinal hcons hshift)),
    .of_advance (x := [c]) hinput⟩

/-- The states behind a whole operand, and the rules they reduce by. -/
theorem consistent_state {t : Nat} (ht : t ∈ [26, 29, 48, 49, 81]) :
    t ≠ sqlTables.final ∧ sqlTables.consistent t = true ∧ (t, sqlTables.reduce t) ∈
      [(26, some 15), (29, some 16), (48, some 28), (49, some 27), (81, some 38)] := by
  have hall : [26, 29, 48, 49, 81].all (fun t => t != sqlTables.final && sqlTables.consistent t &&
      [(26, some 15), (29, some 16), (48, some 28), (49, some 27), (81, some 38)].contains (t, sqlTables.reduce t)) =
        true := by decide
  have h := List.all_eq_true.mp hall t ht
  simp only [Bool.and_eq_true, bne_iff_ne, List.contains_eq_mem, decide_eq_true_eq] at h
  exact ⟨h.1.1, h.1.2, h.2⟩

theorem step_number (hroom : below.length + 2 < YYMAXDEPTH) (hf : f.state = 26 ∨ f.state = 29) :
    step sqlTables sqlActions (before f (top :: below) s) =
      .run (before ⟨goto top.state 114, f.value, f.loc⟩ (top :: below) s) := by
  obtain ⟨hfinal, hcons, -⟩ := consistent_state (t := f.state) (by obtain h | h := hf <;> rw [h] <;> decide)
  have hlen : (top :: below).length + 1 < sqlTables.maxDepth := hroom
  obtain h | h := hf
  · have hr : sqlTables.reduce f.state = some 15 := by
      rw [h]
      decide
    rw [before, step_reduce hlen hfinal hcons hr]
    rfl
  · have hr : sqlTables.reduce f.state = some 16 := by
      rw [h]
      decide
    rw [before, step_reduce hlen hfinal hcons hr]
    rfl

theorem step_plus (hroom : below.length + 3 < YYMAXDEPTH) (hf : f.state = 48) :
    step sqlTables sqlActions (before f (g :: top :: below) s) =
      .run (before ⟨goto top.state 114, f.value, ⟨g.loc.first_column, f.loc.last_column⟩⟩ (top :: below) s) := by
  obtain ⟨hfinal, hcons, -⟩ := consistent_state (t := f.state) (by rw [hf]; decide)
  have hlen : (g :: top :: below).length + 1 < sqlTables.maxDepth := hroom
  have hr : sqlTables.reduce f.state = some 28 := by
    rw [hf]
    decide
  rw [before, step_reduce hlen hfinal hcons hr]
  rfl

theorem step_paren {f' : SqlFrame} (hroom : below.length + 4 < YYMAXDEPTH) (hf : f.state = 81) :
    step sqlTables sqlActions (before f (f' :: g :: top :: below) s) =
      .run (before ⟨goto top.state 114, f'.value, ⟨g.loc.first_column, f.loc.last_column⟩⟩ (top :: below) s) := by
  obtain ⟨hfinal, hcons, -⟩ := consistent_state (t := f.state) (by rw [hf]; decide)
  have hlen : (f' :: g :: top :: below).length + 1 < sqlTables.maxDepth := hroom
  have hr : sqlTables.reduce f.state = some 38 := by
    rw [hf]
    decide
  rw [before, step_reduce hlen hfinal hcons hr]
  rfl

theorem step_minus (top : SqlFrame) (hroom : below.length + 3 < YYMAXDEPTH) (hf : f.state = 49)
    {type : NodeType} {op : Operation} {sExpr sValue : Bytes} {children : List ParseNode}
    (hvalue : f.value = node type op sExpr sValue children)
    (htype : type = .int ∨ type = .float) {x : Bytes}
    (hx : getExpr ⟨g.loc.first_column, f.loc.last_column⟩ s = x) :
    step sqlTables sqlActions (before f (g :: top :: below) s) =
      if blockSize < s.m_iCurrent + sizeofNode then .stop (.thrown bufferFull) s
      else .run (before ⟨goto top.state 114, node type .none x x [], ⟨g.loc.first_column, f.loc.last_column⟩⟩
        (top :: below) { s with m_iCurrent := s.m_iCurrent + sizeofNode }) := by
  obtain ⟨hfinal, hcons, -⟩ := consistent_state (t := f.state) (by rw [hf]; decide)
  have hlen : (g :: top :: below).length + 1 < sqlTables.maxDepth := hroom
  have hr : sqlTables.reduce f.state = some 27 := by
    rw [hf]
    decide
  have haction : minusAction [(g.value, g.loc), (f.value, f.loc)] ⟨g.loc.first_column, f.loc.last_column⟩ s =
      if blockSize < s.m_iCurrent + sizeofNode then .error bufferFull s
      else .ok (.value (node type .none x x [])) { s with m_iCurrent := s.m_iCurrent + sizeofNode } := by
    have hrhs : Rhs.value [(g.value, g.loc), (f.value, f.loc)] 2 = node type op sExpr sValue children := hvalue
    unfold minusAction
    rw [hrhs]
    by_cases hfull : blockSize < s.m_iCurrent + sizeofNode
    · rw [if_pos hfull]
      obtain rfl | rfl := htype
      · simp only [Bind.bind, EStateM.bind, newSimpleNode_run, if_pos hfull]
      · simp only [Bind.bind, EStateM.bind, newSimpleNode_run, if_pos hfull]
    · rw [if_neg hfull]
      obtain rfl | rfl := htype
      · simp only [Bind.bind, EStateM.bind, newSimpleNode_run, if_neg hfull, hx]
        rfl
      · simp only [Bind.bind, EStateM.bind, newSimpleNode_run, if_neg hfull, hx]
        rfl
  rw [before, step_reduce hlen hfinal hcons hr]
  by_cases hfull : blockSize < s.m_iCurrent + sizeofNode
  · rw [if_pos hfull] at haction ⊢
    exact reduceBy_error rfl haction
  · rw [if_neg hfull] at haction ⊢
    exact reduceBy_value rfl haction

end Steps

namespace Signed

/-- The stack and the parse buffer have room for the expression. -/
def Fits (e : Signed) (below : List SqlFrame) (s : ParseState) : Prop :=
  below.length + 1 + e.depth < YYMAXDEPTH ∧ s.m_iCurrent + e.nodes * sizeofNode ≤ blockSize

def Comes (e : Signed) (top : SqlFrame) (below : List SqlFrame) (s : ParseState) (rest : Bytes) : Prop :=
  ∃ f s', Via sqlTables sqlActions (Within top below rest) (before top below s) (before f (top :: below) s') ∧
    f.state = goto top.state 114 ∧ f.value = node e.kind .none e.constant e.constant [] ∧
    f.loc = ⟨s.m_yycolumn, s.m_yycolumn + e.text.length - 1⟩ ∧ Passed s s' e.text rest (e.nodes * sizeofNode)

variable {top : SqlFrame} {below : List SqlFrame} {s : ParseState} {rest : Bytes}

theorem length_text_pos (e : Signed) : 0 < e.text.length := by
  cases e with
  | number l =>
    obtain ⟨c, t, ht, -⟩ := l.head_text
    change 0 < l.text.length
    rw [ht]
    exact Nat.succ_pos _
  | minus | plus | paren => exact Nat.succ_pos _

theorem number_comes (l : Literal) (htop : shift top.state 32 = some 32) (hat : At s)
    (hinput : s.input = l.text ++ rest) (hrest : Literal.Apart rest) :
    (number l).Fits below s ∧ (number l).Comes top below s rest ∨
      Lost (Within top below rest) rest (before top below s) ∧ ¬ (number l).Fits below s := by
  obtain ⟨hfinal, hcons, h6, h10, -, -, hgoto⟩ := sign_states htop
  have hdepth : (number l).Fits below s ↔ below.length + 2 < YYMAXDEPTH ∧ s.m_iCurrent + sizeofNode ≤ blockSize := by
    rw [Fits, depth, nodes, Nat.one_mul]
  rw [hdepth]
  by_cases hroom : below.length + 1 < YYMAXDEPTH
  case neg => exact .inr ⟨lost_of_full hroom within_top, fun h => hroom (by omega)⟩
  have hlex := lex_number l hrest hat hinput
  by_cases hfull : blockSize < s.m_iCurrent + sizeofNode
  case pos =>
    rw [if_pos hfull] at hlex
    have hstep : step sqlTables sqlActions (before top below s) =
        .stop (.thrown bufferFull) (advance l.text.length s) := by
      rw [before, step_lex hroom hfinal hcons, hlex]
    exact .inr ⟨.of_stop within_top hstep, fun h => Nat.not_lt.mpr h.2 hfull⟩
  rw [if_neg hfull] at hlex
  have hstep := (step_lex hroom hfinal hcons).trans (by rw [hlex])
  obtain ⟨t, hshift, ht⟩ : ∃ t, sqlTables.shift top.state l.symbol = some t ∧ (t = 26 ∨ t = 29) := by
    unfold Literal.symbol
    cases l.isInt with
    | true => exact ⟨26, h6, .inl rfl⟩
    | false => exact ⟨29, h10, .inr rfl⟩
  have htoken : t ≠ goto top.state 114 := by
    rintro rfl
    obtain h | h := ht <;> rw [h] at hgoto <;> exact hgoto (by decide)
  have hvia := Via.next (A := sqlTables) (Q := Within top below rest) within_top hstep
    (.single within_top (step_shift hroom hfinal hcons hshift))
  by_cases hroom' : below.length + 2 < YYMAXDEPTH
  case neg =>
    refine .inr ⟨.of_via hvia ?_, fun h => hroom' h.1⟩
    exact lost_of_full hroom' (within_one htoken)
  refine .inl ⟨⟨hroom', Nat.not_lt.mp hfull⟩, _, _, hvia.trans (.single (within_one htoken) (step_number hroom' ht)),
    rfl, rfl, rfl, ?_⟩
  have hpassed := Passed.of_advance hinput
  exact ⟨hinput, hpassed.behind, rfl, rfl, by rw [nodes, Nat.one_mul]⟩

/-- What is to be proved of an expression, at every place where one may begin. -/
def Settled (e : Signed) : Prop :=
  ∀ {top : SqlFrame} {below : List SqlFrame} {s : ParseState} {rest : Bytes}, shift top.state 32 = some 32 → At s →
    s.input = e.text ++ rest → e.EndsBefore rest →
    e.Fits below s ∧ e.Comes top below s rest ∨
      Lost (Within top below rest) rest (before top below s) ∧ ¬ (e.Fits below s ∧ e.Plain)

theorem run_opening {c : UInt8} {t : Nat} {w x : Bytes} (htop : shift top.state 32 = some 32)
    (hscan : ∃ r, ScanRule.scan lexRules (c :: (w ++ x)) = some (1, r) ∧ r.action = .character ∧ r.trailing = 0)
    (hshift : shift top.state (yytranslateChar c) = some t) (ht : t ∈ [31, 32, 35])
    (hw : ∀ d ∈ w, d ∈ [32, 9, 13, 10]) (hinput : s.input = c :: (w ++ x)) :
    shift t 32 = some 32 ∧ t ≠ goto top.state 114 ∧
      (below.length + 2 < YYMAXDEPTH ∧ (∃ v s', Via sqlTables sqlActions (Within top below rest) (before top below s)
          (before ⟨t, v, ⟨s.m_yycolumn, s.m_yycolumn⟩⟩ (top :: below) s') ∧ Passed s s' (c :: w) x 0) ∨
        ¬ below.length + 2 < YYMAXDEPTH ∧ Lost (Within top below rest) rest (before top below s)) := by
  obtain ⟨hfinal, hcons, -, -, -, -, hgoto⟩ := sign_states htop
  have hsign : shift t 32 = some 32 := by
    have hall : [31, 32, 35].all (fun t => shift t 32 == some 32) = true := by decide
    exact beq_iff_eq.mp (List.all_eq_true.mp hall t ht)
  have hne : t ≠ goto top.state 114 := by
    rintro rfl
    refine hgoto ?_
    simp only [List.mem_cons, List.not_mem_nil, or_false] at ht ⊢
    tauto
  refine ⟨hsign, hne, ?_⟩
  by_cases hroom : below.length + 1 < YYMAXDEPTH
  case neg => exact .inr ⟨fun h => hroom (Nat.lt_of_succ_lt h), lost_of_full hroom within_top⟩
  obtain ⟨s₁, hvia, hone⟩ := run_character (Q := Within top below rest) hfinal hcons hroom
    (fun look s => within_top) hscan hshift hinput
  by_cases hroom' : below.length + 2 < YYMAXDEPTH
  case neg => exact .inr ⟨hroom', .of_via hvia (lost_of_full hroom' (within_one hne))⟩
  obtain ⟨hfinal', hcons', -⟩ := sign_states hsign
  have hstart : ∀ s', Within top below rest (before ⟨t, s₁.yylval, ⟨s.m_yycolumn, s.m_yycolumn⟩⟩ (top :: below) s') :=
    fun s' => within_one hne
  have hroom₂ : (top :: below).length + 1 < YYMAXDEPTH := hroom'
  obtain ⟨s₂, hvia', hblank⟩ := run_blanks hfinal' hcons' hroom₂ hstart hw hone.behind
  exact .inl ⟨hroom', s₁.yylval, s₂, hvia.trans hvia', hone.trans hblank⟩

theorem Comes.within {e : Signed} {f : SqlFrame} {rest' : Bytes} (hne : f.state ≠ goto top.state 114)
    (h : e.Comes f (top :: below) s rest') :
    ∃ g s', Via sqlTables sqlActions (Within top below rest) (before f (top :: below) s)
        (before g (f :: top :: below) s') ∧ g.state = goto f.state 114 ∧
      g.value = node e.kind .none e.constant e.constant [] ∧
      g.loc = ⟨s.m_yycolumn, s.m_yycolumn + e.text.length - 1⟩ ∧ Passed s s' e.text rest' (e.nodes * sizeofNode) := by
  obtain ⟨g, s', hvia, hg⟩ := h
  exact ⟨g, s', hvia.mono fun d => within_token hne, hg⟩

theorem goto_signs : goto 31 114 = 48 ∧ goto 32 114 = 49 ∧ goto 35 114 = 50 := by decide

theorem settled_plus (w : Blanks) {e : Signed} (ih : e.Settled) : (plus w e).Settled := by
  intro top below s rest htop hat hinput hends
  have hdepth := e.depth_pos
  have hfits : (plus w e).Fits below s ↔ below.length + 2 + e.depth < YYMAXDEPTH ∧
      s.m_iCurrent + e.nodes * sizeofNode ≤ blockSize := by
    rw [Fits, depth, nodes]
    refine and_congr_left fun _ => ?_
    omega
  have hinput' : s.input = 43 :: (w.text ++ (e.text ++ rest)) := by
    rw [hinput, text, List.cons_append, List.append_assoc]
  obtain ⟨hsign, hne, ⟨hroom, v, s₁, hvia, hpassed⟩ | ⟨hroom, hlost⟩⟩ := run_opening (c := 43) (t := 31)
    htop (scan_single (single_character (by decide)) _) (sign_states htop).2.2.2.2.2.1 (by decide) w.isBlank hinput'
  case inr => exact .inr ⟨hlost, fun h => hroom (by have := hfits.mp h.1; omega)⟩
  have hfits' : e.Fits (top :: below) s₁ ↔ (plus w e).Fits below s := by
    rw [hfits, Fits, hpassed.current]
    rfl
  have hstart : shift (⟨31, v, ⟨s.m_yycolumn, s.m_yycolumn⟩⟩ : SqlFrame).state 32 = some 32 := hsign
  obtain ⟨hfit, hcomes⟩ | ⟨hlost, hunfit⟩ := ih hstart (hpassed.at_ hat) hpassed.behind hends
  · obtain ⟨g, s₂, hvia', hg, hvalue, hloc, hpassed'⟩ := hcomes.within hne
    have hroom₂ : below.length + 3 < YYMAXDEPTH := by
      have := (hfits.mp (hfits'.mp hfit)).1
      omega
    refine .inl ⟨hfits'.mp hfit, _, _, (hvia.trans hvia').trans
      (.single (within_deep [_, _] le_rfl) (step_plus hroom₂ (hg.trans goto_signs.1))), rfl, hvalue, ?_, ?_⟩
    · have hlen := e.length_text_pos
      rw [hloc, hpassed.column, text]
      simp only [List.length_cons, List.length_append, Location.mk.injEq, true_and]
      omega
    · have h := hpassed.trans hpassed'
      rw [Nat.zero_add] at h
      exact h
  · exact .inr ⟨.of_via hvia (hlost.mono (fun d => within_token hne) rfl), fun h => hunfit ⟨hfits'.mpr h.1, h.2⟩⟩

/-- A comment that begins with the sign takes a semicolon behind the expression. -/
theorem lost_in_comment {w : Blanks} {e : Signed} (htop : shift top.state 32 = some 32)
    (hinput : s.input = (minus w e).text ++ rest) {r : ScanRule UInt8 LexAction} {d : UInt8} {y more : Bytes}
    (hscan : ScanRule.scan lexRules (45 :: (w.text ++ (e.text ++ rest))) = some (y.length + 4, r))
    (haction : r.action = .comment) (htrailing : r.trailing = 0)
    (hy : w.text ++ (e.text ++ rest) = 45 :: d :: (y ++ 59 :: more)) :
    Lost (Within top below rest) rest (before top below s) ∧ ¬ (minus w e).Plain := by
  obtain ⟨hfinal, hcons, -⟩ := sign_states htop
  have hinput' : s.input = 45 :: (w.text ++ (e.text ++ rest)) := by
    rw [hinput, text, List.cons_append, List.append_assoc]
  refine ⟨?_, fun hplain => ?_⟩
  · by_cases hroom : below.length + 1 < YYMAXDEPTH
    case neg => exact lost_of_full hroom within_top
    rw [← hinput'] at hscan
    have hstep : step sqlTables sqlActions (before top below s) =
        .run (before top below (advance (y.length + 4) s)) := by
      rw [before, step_lex hroom hfinal hcons, lex_blank hscan haction htrailing]
      rfl
    refine ⟨_, .single within_top hstep, within_top, .inr ?_⟩
    have hmore : (advance (y.length + 4) s).input = more := by
      have hlen : (45 :: 45 :: d :: (y ++ [59])).length = y.length + 4 := by simp
      change s.input.drop (y.length + 4) = more
      rw [hinput', hy, ← hlen]
      have hsplit : (45 : UInt8) :: 45 :: d :: (y ++ 59 :: more) = (45 :: 45 :: d :: (y ++ [59])) ++ more := by simp
      rw [hsplit, List.drop_left]
    have hcount := congrArg (List.count 59) hinput
    rw [hinput', hy, List.count_append, List.count_eq_zero_of_not_mem (minus w e).semicolon_not_mem,
      Nat.zero_add] at hcount
    change (advance (y.length + 4) s).input.count 59 < _
    rw [hmore, ← hcount]
    simp only [List.count_cons, List.count_append, beq_self_eq_true, if_true]
    omega
  · obtain ⟨hw, l, rfl⟩ := plain_minus.mp hplain
    obtain ⟨c, t, ht, hc⟩ := l.head_text
    rw [hw, List.nil_append, text, ht, List.cons_append, List.cons.injEq] at hy
    rw [hy.1] at hc
    exact absurd hc (by decide)

theorem settled_minus (w : Blanks) {e : Signed} (ih : e.Settled) : (minus w e).Settled := by
  intro top below s rest htop hat hinput hends
  have hdepth := e.depth_pos
  have hfits : (minus w e).Fits below s ↔ below.length + 2 + e.depth < YYMAXDEPTH ∧
      s.m_iCurrent + (e.nodes * sizeofNode + sizeofNode) ≤ blockSize := by
    rw [Fits, depth, nodes, Nat.succ_mul]
    refine and_congr_left fun _ => ?_
    omega
  have hinput' : s.input = 45 :: (w.text ++ (e.text ++ rest)) := by
    rw [hinput, text, List.cons_append, List.append_assoc]
  obtain hscan | ⟨r, d, y, more, hscan, haction, htrailing, hy, -⟩ := scan_minus (w.text ++ (e.text ++ rest))
  case inr =>
    obtain ⟨hlost, hplain⟩ := lost_in_comment htop hinput hscan haction htrailing hy
    exact .inr ⟨hlost, fun h => hplain h.2⟩
  obtain ⟨hsign, hne, ⟨hroom, v, s₁, hvia, hpassed⟩ | ⟨hroom, hlost⟩⟩ := run_opening (c := 45) (t := 32)
    htop hscan htop (by decide) w.isBlank hinput'
  case inr => exact .inr ⟨hlost, fun h => hroom (by have := hfits.mp h.1; omega)⟩
  have hplain : (minus w e).Plain → e.Plain := by
    intro h
    obtain ⟨-, l, rfl⟩ := plain_minus.mp h
    trivial
  have hfits' : (minus w e).Fits below s → e.Fits (top :: below) s₁ := by
    rw [hfits, Fits, hpassed.current]
    exact fun h => ⟨h.1, by omega⟩
  have hstart : shift (⟨32, v, ⟨s.m_yycolumn, s.m_yycolumn⟩⟩ : SqlFrame).state 32 = some 32 := hsign
  obtain ⟨hfit, hcomes⟩ | ⟨hlost, hunfit⟩ := ih hstart (hpassed.at_ hat) hpassed.behind hends
  case inr =>
    exact .inr ⟨.of_via hvia (hlost.mono (fun d => within_token hne) rfl), fun h => hunfit ⟨hfits' h.1, hplain h.2⟩⟩
  obtain ⟨g, s₂, hvia', hg, hvalue, hloc, hpassed'⟩ := hcomes.within hne
  have hroom₂ : below.length + 3 < YYMAXDEPTH := by
    have h : below.length + 1 + 1 + e.depth < YYMAXDEPTH := hfit.1
    omega
  have hpassed₂ := hpassed.trans hpassed'
  rw [Nat.zero_add] at hpassed₂
  have hlen := e.length_text_pos
  have hlast : g.loc.last_column = s.m_yycolumn + (minus w e).text.length - 1 := by
    rw [hloc, hpassed.column, text]
    simp only [List.length_cons, List.length_append]
    omega
  have hexpr : getExpr ⟨s.m_yycolumn, g.loc.last_column⟩ s₂ = (minus w e).text := by
    obtain ⟨tail, htail⟩ := hat.input
    have hcolumn := hat.column
    have htext : s₂.m_sSql.drop (s.m_yycolumn - 1) = (minus w e).text ++ (rest ++ tail) := by
      rw [hpassed₂.sql, ← htail, hinput, List.append_assoc]
    refine getExpr_eq htext ?_
    rw [hlast, text]
    simp only [List.length_cons, List.length_append]
    omega
  have htype : e.kind = .int ∨ e.kind = .float := by
    unfold kind
    cases e.literal.isInt with
    | true => exact .inl rfl
    | false => exact .inr rfl
  have hstep := step_minus (g := ⟨32, v, ⟨s.m_yycolumn, s.m_yycolumn⟩⟩) (s := s₂) top hroom₂
    (hg.trans goto_signs.2.1) hvalue htype hexpr
  by_cases hfull : blockSize < s₂.m_iCurrent + sizeofNode
  · rw [if_pos hfull] at hstep
    refine .inr ⟨.of_via (hvia.trans hvia') (.of_stop (within_deep [_, _] le_rfl) hstep), fun h => ?_⟩
    have hcurrent := (hfits.mp h.1).2
    rw [hpassed₂.current] at hfull
    omega
  · rw [if_neg hfull] at hstep
    refine .inl ⟨hfits.mpr ⟨hfit.1, ?_⟩, _, _, (hvia.trans hvia').trans
      (.single (within_deep [_, _] le_rfl) hstep), rfl, rfl, ?_, ?_⟩
    · rw [hpassed₂.current] at hfull
      omega
    · rw [hlast]
    · refine ⟨hinput, hpassed₂.behind, hpassed₂.sql, hpassed₂.column, ?_⟩
      change s₂.m_iCurrent + sizeofNode = _
      rw [hpassed₂.current, nodes, Nat.succ_mul, Nat.add_assoc]

theorem count_blanks (w : Blanks) : w.text.count 59 = 0 :=
  List.count_eq_zero_of_not_mem fun h => absurd (w.isBlank 59 h) (by decide)

theorem apart_blanks (w : Blanks) (rest : Bytes) : Literal.Apart (w.text ++ 41 :: rest) := by
  intro c hc
  cases hw : w.text with
  | nil =>
    rw [hw] at hc
    obtain rfl : 41 = c := by simpa using hc
    decide
  | cons d t =>
    rw [hw] at hc
    obtain rfl : d = c := by simpa using hc
    have hd := w.isBlank d (by rw [hw]; exact List.mem_cons_self)
    simp only [List.mem_cons, List.not_mem_nil, or_false] at hd
    obtain rfl | rfl | rfl | rfl := hd <;> decide

theorem settled_paren (w : Blanks) {e : Signed} (w' : Blanks) (ih : e.Settled) : (paren w e w').Settled := by
  intro top below s rest htop hat hinput hends
  have hdepth := e.depth_pos
  have hfits : (paren w e w').Fits below s ↔ (below.length + 2 + e.depth < YYMAXDEPTH ∧ below.length + 4 < YYMAXDEPTH) ∧
      s.m_iCurrent + e.nodes * sizeofNode ≤ blockSize := by
    rw [Fits, depth, nodes]
    refine and_congr_left fun _ => ?_
    omega
  have hinput' : s.input = 40 :: (w.text ++ (e.text ++ (w'.text ++ 41 :: rest))) := by
    rw [hinput, text]
    simp
  obtain ⟨hsign, hne, ⟨hroom, v, s₁, hvia, hpassed⟩ | ⟨hroom, hlost⟩⟩ := run_opening (c := 40) (t := 35)
    htop (scan_single (single_character (by decide)) _) (sign_states htop).2.2.2.2.1 (by decide) w.isBlank hinput'
  case inr => exact .inr ⟨hlost, fun h => hroom (by have := hfits.mp h.1; omega)⟩
  have hfits' : e.Fits (top :: below) s₁ ↔ below.length + 2 + e.depth < YYMAXDEPTH ∧
      s.m_iCurrent + e.nodes * sizeofNode ≤ blockSize := by
    rw [Fits, hpassed.current]
    rfl
  have hcount : (w'.text ++ 41 :: rest).count 59 = rest.count 59 := by
    rw [List.count_append, count_blanks, List.count_cons_of_ne (by decide), Nat.zero_add]
  have hstart : shift (⟨35, v, ⟨s.m_yycolumn, s.m_yycolumn⟩⟩ : SqlFrame).state 32 = some 32 := hsign
  obtain ⟨hfit, hcomes⟩ | ⟨hlost, hunfit⟩ := ih hstart (hpassed.at_ hat) hpassed.behind
    (endsBefore_of_apart (apart_blanks w' rest) e)
  case inr =>
    refine .inr ⟨.of_via hvia (hlost.mono (fun d => within_token hne) hcount), fun h => hunfit ⟨hfits'.mpr ?_, h.2⟩⟩
    exact ⟨(hfits.mp h.1).1.1, (hfits.mp h.1).2⟩
  obtain ⟨g, s₂, hvia', hg, hvalue, hloc, hpassed'⟩ := hcomes.within hne
  have hroom₂ : below.length + 3 < YYMAXDEPTH := by
    have h := (hfits'.mp hfit).1
    omega
  have hstate : g.state ≠ sqlTables.final ∧ sqlTables.consistent g.state = false ∧ shift g.state 108 = some 81 := by
    rw [hg, show goto 35 114 = 50 from goto_signs.2.2]
    decide
  obtain ⟨s₃, hvia₃, hpassed₃⟩ := run_blanks (Q := Within top below rest) hstate.1 hstate.2.1
    (show (⟨35, v, ⟨s.m_yycolumn, s.m_yycolumn⟩⟩ :: top :: below : List SqlFrame).length + 1 < YYMAXDEPTH from hroom₂)
    (fun s => within_deep [_, _] le_rfl) w'.isBlank hpassed'.behind
  obtain ⟨s₄, hvia₄, hpassed₄⟩ := run_character (Q := Within top below rest) (c := 41) (t := 81) hstate.1 hstate.2.1
    (show (⟨35, v, ⟨s.m_yycolumn, s.m_yycolumn⟩⟩ :: top :: below : List SqlFrame).length + 1 < YYMAXDEPTH from hroom₂)
    (fun look s => within_deep [_, _] le_rfl) (scan_single (single_character (by decide)) _) hstate.2.2
    hpassed₃.behind
  have hrun := ((hvia.trans hvia').trans hvia₃).trans hvia₄
  by_cases hroom₄ : below.length + 4 < YYMAXDEPTH
  case neg =>
    refine .inr ⟨.of_via hrun (lost_of_full hroom₄ ?_), fun h => hroom₄ (hfits.mp h.1).1.2⟩
    exact within_deep [_, _, _] (Nat.le_succ 2)
  have hall := ((hpassed.trans hpassed').trans hpassed₃).trans hpassed₄
  have htext : 40 :: w.text ++ e.text ++ w'.text ++ [41] = (paren w e w').text := by simp [text]
  rw [htext, Nat.zero_add] at hall
  refine .inl ⟨hfits.mpr ⟨⟨(hfits'.mp hfit).1, hroom₄⟩, (hfits'.mp hfit).2⟩, _, _,
    hrun.trans (.single (within_deep [_, _, _] (Nat.le_succ 2)) (step_paren hroom₄ rfl)), rfl, hvalue, ?_, hall⟩
  rw [hpassed₃.column, hpassed'.column, hpassed.column, ← htext]
  simp only [List.length_cons, List.length_append, List.length_nil, Location.mk.injEq, true_and]
  omega

theorem settled (e : Signed) : e.Settled := by
  induction e with
  | number l =>
    intro top below s rest htop hat hinput hends
    obtain h | ⟨hlost, hunfit⟩ := number_comes l htop hat hinput hends
    · exact .inl h
    · exact .inr ⟨hlost, fun h => hunfit h.1⟩
  | minus w e ih => exact settled_minus w ih
  | plus w e ih => exact settled_plus w ih
  | paren w e w' ih => exact settled_paren w w' ih

/-- The parser makes a constant of the kind and the value of the expression. -/
def Denoted (e : Signed) (top : SqlFrame) (below : List SqlFrame) (s : ParseState) (rest : Bytes) : Prop :=
  ∃ pNode, ReadsExpr top below s rest pNode ∧ pNode.type = e.kind ∧ Numeral pNode.getString e.value

/-- The sign of a number is read as part of it, and nothing else is: the constant has the value of the
expression exactly when the only minus sign, if any, stands directly in front of the number, as far as the
parser has room. It is then the constant that the literal of that value is. -/
theorem denoted_iff (e : Signed) (htop : shift top.state 32 = some 32) (hat : At s) (hinput : s.input = e.text ++ rest)
    (hends : e.EndsBefore rest) :
    (e.Denoted top below s rest ↔ e.Plain ∧ e.Fits below s) ∧
      (e.Plain → e.Fits below s → ReadsExpr top below s rest e.literalNode) := by
  obtain ⟨hfit, f, s', hvia, hf, hvalue, -, hpassed⟩ | ⟨hlost, hunfit⟩ := e.settled htop hat hinput hends
  · have hreads : ReadsExpr top below s rest (node e.kind .none e.constant e.constant []) :=
      ⟨f, s', hvia, hf, hpassed.behind, hvalue⟩
    constructor
    · constructor
      · rintro ⟨p, hp, -, hnumeral⟩
        rw [hp.unique hreads] at hnumeral
        exact ⟨plain_of_numeral hnumeral, hfit⟩
      · rintro ⟨hplain, -⟩
        exact ⟨_, hreads, rfl, numeral_of_plain hplain⟩
    · intro hplain _
      rw [constant_of_plain hplain] at hreads
      exact hreads
  · refine ⟨iff_of_false ?_ fun h => hunfit ⟨h.2, h.1⟩, fun hplain hfit => absurd ⟨hfit, hplain⟩ hunfit⟩
    rintro ⟨p, hp, -⟩
    exact hp.not_lost hlost

end Signed

def fiveLiteral : Literal := ⟨[53], none, none, by decide, List.forall_mem_singleton.2 rfl⟩

/-- `( -5)` behind an opening parenthesis. -/
def parenFive : Signed :=
  .paren ⟨[32], List.forall_mem_singleton.2 (by decide)⟩ (.minus ⟨[], List.forall_mem_nil _⟩ (.number fiveLiteral))
    ⟨[], List.forall_mem_nil _⟩

theorem denoted_iff_parenFive :
    (parenFive.Denoted ⟨35, .null, ⟨1, 1⟩⟩ [] (atLiteral parenFive.text) [] ↔
        parenFive.Plain ∧ parenFive.Fits [] (atLiteral parenFive.text)) ∧
      (parenFive.Plain → parenFive.Fits [] (atLiteral parenFive.text) →
        ReadsExpr ⟨35, .null, ⟨1, 1⟩⟩ [] (atLiteral parenFive.text) [] parenFive.literalNode) :=
  parenFive.denoted_iff (by decide) ⟨le_rfl, List.prefix_rfl⟩ (List.append_nil _).symm trivial

end LevelPgServer.SqlParser
