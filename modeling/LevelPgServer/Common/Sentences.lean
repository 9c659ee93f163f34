import LevelPgServer.Common.Lookaheads
import LevelPgServer.Lib.LalrScripts

/-! The tables read every sentence whose operators are grouped by their levels. -/

namespace LevelPgServer.SqlParser

open ParseNode Lalr

/-! A tree can be read where the rules on its edges agree with what stands around it. -/

theorem LeftOperator.root {T : SqlTree} {t : Nat} (h : LeftOperator T t) : T.root = .nonterminal .expr := by
  cases h <;> rfl

theorem RightRule.root {T : SqlTree} {q : Nat} (h : RightRule T q) : T.root = .nonterminal .expr := by
  cases h <;> rfl

section Fits

variable {reads : Nat → ParseNode × Location → Prop} {builds : Nat → Rhs → ParseNode × Location → Prop}

theorem node_parts {r : Nat} {B : Nonterminal} {a : ParseNode × Location} {children : List SqlTree}
    (hvalid : (ParseTree.node r B a children : SqlTree).Valid production reads builds)
    (hgrouped : Grouped (.node r B a children)) :
    production r = some ⟨B, children.map ParseTree.root⟩ ∧ (∀ T ∈ children, T.Valid production reads builds) ∧
      (∀ T ∈ children, Grouped T) ∧
      (∀ l t b rest, B = .expr → children = l :: .token t b :: rest → l.root = .nonterminal .expr →
        ∀ q, RightRule l q → level (.terminal t) ≤ ruleLevel q) ∧
      ∀ front e, B = .expr → children = front ++ [e] → front ≠ [] → e.root = .nonterminal .expr →
        ∀ t, LeftOperator e t → ruleLevel r < level (.terminal t) := by
  cases hvalid with
  | node hrule _ hchildren =>
    cases hgrouped with
    | node hleft hright hgrouped => exact ⟨hrule, hchildren, hgrouped, hleft, hright⟩

variable (reads builds) in
structure Fits (s : Nat) (T : SqlTree) (u : Nat) : Prop where
  valid : T.Valid production reads builds
  grouped : Grouped T
  expected : ∀ B, T.root = .nonterminal B → expects s B = true ∧ u ∈ sqlFollow B ∧ B ≠ .sql_stmt
  left : ∀ t, LeftOperator T t → shift (goto s 114) t ≠ none
  right : ∀ q, RightRule T q → shift (stateBehind q) u = none

theorem after_nonterminal (s : Nat) (B : Nonterminal) :
    sqlTables.after number s (.nonterminal B) = some (goto s (number B)) := by rw [after, sqlTables]

theorem Fits.token {s t u : Nat} {a : ParseNode × Location}
    (hvalid : (ParseTree.token t a : SqlTree).Valid production reads builds) : Fits reads builds s (.token t a) u := by
  refine ⟨hvalid, .token t a, ?_, ?_, ?_⟩
  · intro B hB
    cases hB
  · intro t' ht'
    cases ht'
  · intro q hq
    cases hq

theorem walks_of_walk {edge : Bool} {s p u : Nat} (ss : List Nat) {Ts : List SqlTree}
    (hwalk : walk edge s (Ts.map ParseTree.root) = some p) (hvalid : ∀ T ∈ Ts, T.Valid production reads builds)
    (hgrouped : ∀ T ∈ Ts, Grouped T)
    (hfollow : ∀ front T rest C, Ts = front ++ T :: rest → T.root = .nonterminal C →
      ParseTree.next rest u ∈ sqlFollow C)
    (hinner : ∀ front T rest, Ts = front ++ T :: rest → T.root = .nonterminal .expr → (edge = true → rest ≠ []) →
      ParseTree.next rest u ∉ operators)
    (hlast : edge = true → ∀ front e, Ts = front ++ [e] → e.root = .nonterminal .expr →
      (∀ t, LeftOperator e t → shift p t ≠ none) ∧ ∀ q, RightRule e q → shift (stateBehind q) u = none) :
    ∃ rest, Walks sqlTables number (Fits reads builds) u (s :: ss) Ts (p :: rest) := by
  induction Ts generalizing s ss with
  | nil =>
    obtain rfl := Option.some.inj hwalk
    exact ⟨ss, .nil _⟩
  | cons T Ts ih =>
    have hrest : ∀ s', walk edge s' (Ts.map ParseTree.root) = some p →
        ∃ rest, Walks sqlTables number (Fits reads builds) u (s' :: s :: ss) Ts (p :: rest) := by
      intro s' hwalk'
      refine ih _ hwalk' (fun T hT => hvalid T (List.mem_cons_of_mem _ hT))
        (fun T hT => hgrouped T (List.mem_cons_of_mem _ hT))
        ?_ ?_ ?_
      · rintro front T' rest C rfl
        exact hfollow (T :: front) T' rest C rfl
      · rintro front T' rest rfl
        exact hinner (T :: front) T' rest rfl
      · rintro hedge front e rfl
        exact hlast hedge (T :: front) e rfl
    have hvalidT := hvalid T List.mem_cons_self
    cases T with
    | token t a =>
      obtain ⟨s', hshift, hwalk'⟩ := Option.bind_eq_some_iff.mp hwalk
      obtain ⟨rest, hwalks⟩ := hrest s' hwalk'
      exact ⟨rest, .cons (.token hvalidT) hshift hwalks⟩
    | node r B a children =>
      rw [List.map_cons, ParseTree.root, walk] at hwalk
      split at hwalk
      case isFalse => cases hwalk
      case isTrue hcond =>
        obtain ⟨hread, hcond⟩ := (Bool.and_eq_true _ _).mp hcond
        obtain ⟨hexpects, hstmt⟩ := (Bool.and_eq_true _ _).mp hread
        obtain ⟨rest, hwalks⟩ := hrest _ hwalk
        refine ⟨rest, .cons ⟨hvalidT, hgrouped _ List.mem_cons_self, ?_, ?_, ?_⟩ (after_nonterminal s B) hwalks⟩
        · intro C hC
          obtain rfl := Symbol.nonterminal.inj hC
          exact ⟨hexpects, hfollow [] _ Ts B rfl rfl, by simpa using hstmt⟩
        · intro t ht
          obtain rfl : B = .expr := Symbol.nonterminal.inj ht.root
          simp only [bne_self_eq_false, Bool.false_or, Bool.or_eq_true, Bool.and_eq_true, List.isEmpty_iff,
            List.map_eq_nil_iff, List.contains_iff_mem] at hcond
          obtain ⟨hedge, rfl⟩ | hfree := hcond
          · obtain rfl := Option.some.inj hwalk
            exact (hlast hedge [] _ rfl rfl).1 t ht
          · exact shift_free hfree (ht.mem_operators hvalidT)
        · intro q hq
          by_cases hlastT : edge = true ∧ Ts = []
          · obtain ⟨hedge, rfl⟩ := hlastT
            exact (hlast hedge [] _ rfl hq.root).2 q hq
          · refine shift_behind (hq.endsOpen hvalidT) (hinner [] _ Ts rfl hq.root fun hedge hTs => hlastT ⟨hedge, hTs⟩)

theorem next_not_operator {r : Nat} {B : Nonterminal} {front rest : List SqlTree} {T : SqlTree} {u : Nat}
    (hrule : production r = some ⟨B, (front ++ T :: rest).map ParseTree.root⟩)
    (hvalid : ∀ T ∈ rest, T.Valid production reads builds) (hroot : T.root = .nonterminal .expr)
    (hfront : B = .expr → front ≠ []) (hrest : B = .expr → rest ≠ []) (hu : u ∈ sqlFollow B) :
    ParseTree.next rest u ∉ operators := by
  have hall : productions.all (fun R =>
      (if R.input == .expr then R.output.tail else R.output).tails.all (enclosed R.input)) = true := by decide
  have hrow := List.all_eq_true.mp hall _ (List.mem_toFinset.mp (production_mem hrule))
  rw [List.map_append, List.map_cons, hroot] at hrow
  dsimp only at hrow
  have hsuffix : .nonterminal .expr :: rest.map ParseTree.root ∈
      (if B == .expr then (front.map ParseTree.root ++ .nonterminal .expr :: rest.map ParseTree.root).tail
        else front.map ParseTree.root ++ .nonterminal .expr :: rest.map ParseTree.root).tails := by
    rw [List.mem_tails]
    split
    case isTrue hB =>
      obtain ⟨T', front', rfl⟩ := List.exists_cons_of_ne_nil (hfront (beq_iff_eq.mp hB))
      exact List.suffix_append _ _
    case isFalse => exact List.suffix_append _ _
  have hsuffix' := List.all_eq_true.mp hrow _ hsuffix
  rw [enclosed, Bool.or_eq_true, or_iff_right, List.all_eq_true] at hsuffix'
  · have hnext := FollowSets.next_mem_firsts (fun T hT u => sqlSets_closed.next_tree (hvalid T hT) u) hu
    simpa using hsuffix' _ hnext
  · simpa using hrest

theorem children_of_endsOpen {r : Nat} {B : Nonterminal} {children : List SqlTree} (hr : endsOpen r = true)
    (hrule : production r = some ⟨B, children.map ParseTree.root⟩) :
    B = .expr ∧ ∃ front e, children = front ++ [e] ∧ front ≠ [] ∧ e.root = .nonterminal .expr := by
  unfold endsOpen at hr
  rw [hrule] at hr
  simp only [Bool.and_eq_true, beq_iff_eq, Nat.ble_eq, List.length_map] at hr
  obtain ⟨⟨hB, hlen⟩, hlast⟩ := hr
  obtain rfl | ⟨front, e, rfl⟩ := List.eq_nil_or_concat' children
  · simp at hlen
  · refine ⟨hB, front, e, rfl, ?_, by simpa using hlast⟩
    rintro rfl
    simp at hlen

section Node

variable {s r u p : Nat} {B : Nonterminal} {a : ParseNode × Location} {children rest : List SqlTree} {T e : SqlTree}

theorem Fits.rule (h : Fits reads builds s (.node r B a children) u) :
    production r = some ⟨B, children.map ParseTree.root⟩ ∧ (∀ T ∈ children, T.Valid production reads builds) ∧
      ∀ T ∈ children, Grouped T := by
  obtain ⟨hrule, hchildren, hgrouped, -, -⟩ := node_parts h.valid h.grouped
  exact ⟨hrule, hchildren, hgrouped⟩

theorem Fits.follow (h : Fits reads builds s (.node r B a children) u) (front : List SqlTree) {C : Nonterminal}
    (hsplit : children = front ++ T :: rest) (hroot : T.root = .nonterminal C) :
    ParseTree.next rest u ∈ sqlFollow C := by
  obtain ⟨hrule, hvalid, -⟩ := h.rule
  subst hsplit
  exact sqlSets_closed.next_follow hrule (fun T hT => hvalid T (by simp [hT])) hroot (h.expected B rfl).2.1

theorem Fits.inner (h : Fits reads builds s (.node r B a children) u) (front : List SqlTree)
    (hsplit : children = front ++ T :: rest)
    (hroot : T.root = .nonterminal .expr) (hfront : B = .expr → front ≠ []) (hrest : B = .expr → rest ≠ []) :
    ParseTree.next rest u ∉ operators := by
  obtain ⟨hrule, hvalid, -⟩ := h.rule
  subst hsplit
  exact next_not_operator hrule (fun T hT => hvalid T (by simp [hT])) hroot hfront hrest (h.expected B rfl).2.1

/-- The last operand has only operators in front that bind more strongly, and what its rule has behind it. -/
theorem Fits.last (h : Fits reads builds s (.node r .expr a children) u) (front : List SqlTree)
    (hsplit : children = front ++ [e])
    (hne : front ≠ []) (he : e.root = .nonterminal .expr) (hreduce : defaultRule p = some r) :
    (∀ t, LeftOperator e t → shift p t ≠ none) ∧ ∀ q, RightRule e q → shift (stateBehind q) u = none := by
  obtain ⟨hrule, hvalid, -⟩ := h.rule
  subst hsplit
  rw [List.map_append, List.map_singleton, he] at hrule
  have hopen := endsOpen_of_output hrule (by simpa using hne)
  refine ⟨fun t ht hnone => ?_, fun q hq => h.right q (.right hne he hq)⟩
  have hmem := ht.mem_operators (hvalid e (by simp))
  rw [state_of_openRule hreduce hopen] at hnone
  obtain ⟨-, -, -, -, hright⟩ := node_parts h.valid h.grouped
  have hlevel := hright front e rfl rfl hne he t ht
  exact absurd (level_of_no_shift hopen hmem hnone) (Nat.not_le_of_lt hlevel)

theorem Fits.first {l : SqlTree} {t : Nat} {b : ParseNode × Location}
    (h : Fits reads builds s (.node r .expr a (l :: .token t b :: rest)) u) (hl : l.root = .nonterminal .expr) :
    Fits reads builds s l t := by
  obtain ⟨hrule, hvalid, hgrouped⟩ := h.rule
  have hvalidl := hvalid l List.mem_cons_self
  refine ⟨hvalidl, hgrouped l List.mem_cons_self, fun C hC => ?_, fun t' ht' => h.left t' (.left hl ht'),
    fun q hq => ?_⟩
  · obtain rfl : .expr = C := Symbol.nonterminal.inj (hl.symm.trans hC)
    refine ⟨(h.expected .expr rfl).1, ?_, (h.expected .expr rfl).2.2⟩
    simpa using h.follow [] rfl hl
  · have hmem : t ∈ operators := by
      rw [List.map_cons, List.map_cons, hl] at hrule
      exact operator_of_output hrule
    obtain ⟨-, -, -, hleft, -⟩ := node_parts h.valid h.grouped
    have hlevel := hleft l t b rest rfl rfl hl q hq
    by_contra hshift
    exact absurd (level_of_shift (hq.endsOpen hvalidl) hmem hshift) (Nat.not_lt_of_le hlevel)

theorem Fits.reads_rule (h : Fits reads builds s (.node r B a children) u) (ss : List Nat) :
    ∃ p rest, Walks sqlTables number (Fits reads builds) u (s :: ss) children (p :: rest) ∧ p ≠ YYFINAL ∧
      defaultRule p = some r := by
  obtain ⟨hrule, hvalid, hgrouped⟩ := h.rule
  have hread := reads_of_expects hrule (h.expected B rfl).1
  by_cases hop : B = .expr ∧ ∃ l others, children = l :: others ∧ l.root = .nonterminal .expr
  · obtain ⟨rfl, l, others, rfl, hl⟩ := hop
    rw [List.map_cons, hl] at hrule hread
    obtain ⟨t, Xs, hXs⟩ := operator_of_operand hrule
    obtain ⟨T, rest, rfl, hT, rfl⟩ := List.map_eq_cons_iff.mp hXs
    cases T with
    | node => cases hT
    | token t' b =>
      obtain rfl := Symbol.terminal.inj hT
      obtain ⟨s', hs'⟩ := Option.ne_none_iff_exists'.mp (h.left t' (.here hl))
      rw [List.map_cons, hT, readsRule, hs'] at hread
      obtain ⟨p, hwalk, hfinal, hreduce⟩ := endsWith_some hread
      obtain ⟨below', hwalks⟩ := walks_of_walk (u := u) (goto s 114 :: s :: ss) hwalk
        (fun T hT => hvalid T (by simp [hT])) (fun T hT => hgrouped T (by simp [hT]))
        (fun front T rest' C hsplit hroot => h.follow (l :: .token t' b :: front) (by rw [hsplit]; rfl) hroot)
        (fun front T rest' hsplit hroot hrest => h.inner (l :: .token t' b :: front) (by rw [hsplit]; rfl) hroot
          (fun _ => List.cons_ne_nil _ _) fun _ => hrest rfl)
        (fun _ front e hsplit he => h.last (l :: .token t' b :: front) (by rw [hsplit]; rfl)
          (List.cons_ne_nil _ _) he hreduce)
      refine ⟨p, below', .cons ?_ ?_ (.cons ?_ hs' hwalks), hfinal, hreduce⟩
      · rw [ParseTree.next_token]
        exact h.first hl
      · rw [hl, after_nonterminal]
        rfl
      · exact .token (hvalid _ (by simp))
  · unfold readsRule at hread
    split at hread
    case h_1 heq =>
      obtain ⟨hB, houtput⟩ := ContextFreeRule.mk.inj heq
      obtain ⟨l, others, hsplit, hl, -⟩ := List.map_eq_cons_iff.mp houtput
      exact (hop ⟨hB, l, others, hsplit, hl⟩).elim
    case h_2 heq =>
      obtain ⟨rfl, rfl⟩ := ContextFreeRule.mk.inj heq
      obtain ⟨p, hwalk, hfinal, hreduce⟩ := endsWith_some hread
      have hfront : ∀ front T rest, children = front ++ T :: rest → T.root = .nonterminal .expr →
          B = .expr → front ≠ [] := by
        rintro front T rest hsplit hroot hB rfl
        exact hop ⟨hB, T, rest, hsplit, hroot⟩
      obtain ⟨below', hwalks⟩ := walks_of_walk (u := u) ss hwalk hvalid hgrouped
        (fun front T rest C hsplit hroot => h.follow front hsplit hroot)
        (fun front T rest hsplit hroot hrest => h.inner front hsplit hroot (hfront front T rest hsplit hroot)
          fun hB => hrest (by simpa using hB))
        (fun hedge front e hsplit he => by
          obtain rfl : B = .expr := by simpa using hedge
          exact h.last front hsplit (hfront front e [] hsplit he rfl) he hreduce)
      exact ⟨p, below', hwalks, hfinal, hreduce⟩

end Node

theorem Fits.node {s r u : Nat} {B : Nonterminal} {a : ParseNode × Location} {children : List SqlTree}
    (h : Fits reads builds s (.node r B a children) u) (ss : List Nat) :
    ∃ p rest, Walks sqlTables number (Fits reads builds) u (s :: ss) children (p :: rest) ∧ p ≠ YYFINAL ∧
      defaultRule p = some r ∧ (sqlTables.consistent p = true ∨ shift p u = none) ∧
      yyr2.getD r 0 = children.length ∧ yyr1.getD r 0 = number B ∧ ¬ (r = 2 ∨ r = 3) := by
  obtain ⟨p, rest, hwalks, hfinal, hreduce⟩ := h.reads_rule ss
  obtain ⟨-, hu, hstmt⟩ := h.expected B rfl
  have hvalid := h.valid
  cases hvalid with
  | node hrule =>
    obtain ⟨hlen, hlhs⟩ := sizes_of_rule hrule
    refine ⟨p, rest, hwalks, hfinal, hreduce, .inr ?_, by simpa using hlen, hlhs, fun hr => ?_⟩
    · obtain hnone | ⟨hopen, hmem⟩ := shift_follow hreduce hrule hu
      · exact hnone
      · obtain ⟨rfl, front, e, rfl, hne, he⟩ := children_of_endsOpen hopen hrule
        rw [state_of_openRule hreduce hopen]
        exact h.right r (.here hne he)
    · exact hstmt (statement_of_accepts hrule hr)

theorem shift_reads {s t s' : Nat} (h : shift s t = some s') : s ≠ YYFINAL ∧ sqlTables.consistent s = false := by
  refine ⟨?_, ?_⟩
  · rintro rfl
    have hstate : sqlTables.consistent YYFINAL = true := by decide
    rw [shift_of_consistent hstate] at h
    cases h
  · by_contra hstate
    rw [shift_of_consistent (by simpa using hstate)] at h
    cases h

def accepting (r : Nat) : Prop := r = 2 ∨ r = 3

theorem fits_guides : Guides sqlTables accepting number (Fits reads builds) where
  shift _ _ _ := shift_reads
  node _ _ _ _ _ _ h ss := h.node ss

theorem statement_walks {r : Nat} {children : List SqlTree}
    (hrule : production r = some ⟨.sql_stmt, children.map ParseTree.root⟩)
    (hvalid : ∀ T ∈ children, T.Valid production reads builds) (hgrouped : ∀ T ∈ children, Grouped T) :
    ∃ p rest, Walks sqlTables number (Fits reads builds) 0 [0] children (p :: rest) ∧ p ≠ YYFINAL ∧
      defaultRule p = some r := by
  have hexpects : expects 0 .sql_stmt = true := by decide
  have hread := reads_of_expects hrule hexpects
  obtain ⟨p, hwalk, hfinal, hreduce⟩ := endsWith_some hread
  have hu : 0 ∈ sqlFollow .sql_stmt := List.mem_singleton.mpr rfl
  have hvalid' : ∀ {front T rest}, children = front ++ T :: rest → ∀ T ∈ rest, T.Valid production reads builds := by
    rintro front T rest rfl T' hT'
    exact hvalid T' (by simp [hT'])
  obtain ⟨below', hwalks⟩ := walks_of_walk (u := 0) [] hwalk hvalid hgrouped
    (fun front T rest C hsplit hroot => sqlSets_closed.next_follow (B := .sql_stmt) (hsplit ▸ hrule)
      (hvalid' hsplit) hroot hu)
    (fun front T rest hsplit hroot _ => next_not_operator (hsplit ▸ hrule) (hvalid' hsplit) hroot
      (fun hB => Nonterminal.noConfusion hB) (fun hB => Nonterminal.noConfusion hB) hu)
    (fun hedge => Bool.noConfusion hedge)
  exact ⟨p, below', hwalks, hfinal, hreduce⟩

theorem children_of_statement {r : Nat} {children : List SqlTree}
    (hrule : production r = some ⟨.sql_stmt, children.map ParseTree.root⟩) :
    accepting r ∧ ∃ front b, children = front ++ [.token 105 b] := by
  have hall : (List.range 87).all (fun r => (production r).all fun R => R.input != .sql_stmt ||
      (r == 2 || r == 3) && R.output.getLast? == some (.terminal 105)) = true := by decide
  have hrow := List.all_eq_true.mp hall r (List.mem_range.mpr (production_lt hrule))
  rw [hrule] at hrow
  simp only [Option.all_some, bne_self_eq_false, Bool.false_or, Bool.and_eq_true, Bool.or_eq_true, beq_iff_eq] at hrow
  obtain ⟨hr, hlast⟩ := hrow
  refine ⟨hr, ?_⟩
  obtain rfl | ⟨front, T, rfl⟩ := List.eq_nil_or_concat' children
  · cases hlast
  · rw [List.map_append, List.map_singleton, List.getLast?_concat] at hlast
    cases T with
    | token t b =>
      obtain rfl := Symbol.terminal.inj (Option.some.inj hlast)
      exact ⟨front, b, rfl⟩
    | node => cases hlast

/-- The driver reads a statement whose operators are grouped by their levels. -/
theorem statement_follows {r : Nat} {children : List SqlTree}
    (hrule : production r = some ⟨.sql_stmt, children.map ParseTree.root⟩)
    (hvalid : ∀ T ∈ children, T.Valid production reads builds) (hgrouped : ∀ T ∈ children, Grouped T) :
    Follows sqlTables accepting [0] (children.flatMap ParseTree.script ++ [.reduce r]) := by
  obtain ⟨p, rest, hwalks, hfinal, hreduce⟩ := statement_walks hrule hvalid hgrouped
  obtain ⟨hr, front, b, rfl⟩ := children_of_statement hrule
  have hstate : sqlTables.consistent p = true :=
    consistent_of_mem (by simpa using Or.inr (defaultRule_accepts hreduce hr))
  obtain ⟨ms, hfront, hlast⟩ := hwalks.split
  cases hlast with
  | @cons s s' ss _ _ _ _ hafter hnil =>
    cases hnil
    have hshift : shift s 105 = some p := hafter
    obtain ⟨hfinal', hstate'⟩ := shift_reads hshift
    rw [List.flatMap_append, List.append_assoc, List.flatMap_singleton, ParseTree.script_token, List.singleton_append]
    refine hfront.follows (fun T _ _ _ _ _ _ hfits hafter hu => fits_guides.follows hfits hafter hu) ?_
      (.shift hfinal' hstate' hshift (.accept hfinal hstate hreduce hr))
    rw [ParseTree.next_token]
    rfl

end Fits

end LevelPgServer.SqlParser
