import LevelPgServer.Common.Sentences

/-! The operators of every sentence can be grouped by their levels. -/

namespace LevelPgServer.SqlParser

open ParseNode Lalr

/-- A rule that ends with an operand is one of a sign or of an operator between two operands. -/
def openShape : List SqlSymbol → Bool
  | [.nonterminal .expr, .terminal _, .nonterminal .expr] => true
  | [_, .nonterminal .expr] => true
  | [_] => true
  | Xs => Xs.getLast? != some (.nonterminal .expr)

theorem openRule_shape {r : Nat} {Xs : List SqlSymbol} (h : production r = some ⟨.expr, Xs ++ [.nonterminal .expr]⟩)
    (hne : Xs ≠ []) : (∃ X, Xs = [X] ∧ ruleLevel r = operatorLevels.length) ∨
      ∃ t, Xs = [.nonterminal .expr, .terminal t] ∧ ruleLevel r = level (.terminal t) := by
  have hall : productions.all (fun R => R.input != .expr || openShape R.output) = true := by decide
  have hrule := List.all_eq_true.mp hall _ (List.mem_toFinset.mp (production_mem h))
  simp only [bne_self_eq_false, Bool.false_or] at hrule
  generalize hYs : Xs ++ [.nonterminal .expr] = Ys at h hrule
  unfold openShape at hrule
  split at hrule
  case h_1 t =>
    right
    refine ⟨t, List.append_cancel_right hYs, ?_⟩
    rw [ruleLevel, h]
  case h_2 X =>
    left
    refine ⟨X, List.append_cancel_right hYs, ?_⟩
    rw [ruleLevel, h]
  case h_3 X =>
    have hlen := congrArg List.length hYs
    rw [List.length_append, List.length_singleton, List.length_singleton] at hlen
    exact (hne (List.length_eq_zero_iff.mp (Nat.succ.inj hlen))).elim
  case h_4 =>
    rw [← hYs, List.getLast?_concat] at hrule
    simp at hrule

theorem ruleLevel_le (r : Nat) : ruleLevel r ≤ operatorLevels.length := by
  unfold ruleLevel
  split
  · exact List.findIdx_le_length
  · exact Nat.le_refl _

theorem LeftOperator.elim {r t : Nat} {a : ParseNode × Location} {children : List SqlTree}
    (h : LeftOperator (.node r .expr a children) t) :
    ∃ l rest, children = l :: rest ∧ l.root = .nonterminal .expr ∧
      ((∃ b rest', rest = .token t b :: rest') ∨ LeftOperator l t) := by
  cases h with
  | here hl => exact ⟨_, _, rfl, hl, .inl ⟨_, _, rfl⟩⟩
  | left hl h => exact ⟨_, _, rfl, hl, .inr h⟩

theorem RightRule.elim {r q : Nat} {a : ParseNode × Location} {children : List SqlTree}
    (h : RightRule (.node r .expr a children) q) :
    ∃ front e, children = front ++ [e] ∧ front ≠ [] ∧ e.root = .nonterminal .expr ∧ (q = r ∨ RightRule e q) := by
  cases h with
  | here hne he => exact ⟨_, _, rfl, hne, he, .inl rfl⟩
  | right hne he h => exact ⟨_, _, rfl, hne, he, .inr h⟩

section Regroup

variable {reads : Nat → ParseNode × Location → Prop} {builds : Nat → Rhs → ParseNode × Location → Prop} {T e : SqlTree}

theorem level_le_of_last {n r : Nat} {a : ParseNode × Location} {front : List SqlTree}
    (hvalid : (ParseTree.node r .expr a (front ++ [e]) : SqlTree).Valid production reads builds) (hne : front ≠ [])
    (he : e.root = .nonterminal .expr) (hn : n ≤ operatorLevels.length)
    (hleft : ∀ t, LeftOperator (.node r .expr a (front ++ [e])) t → n < level (.terminal t)) : n ≤ ruleLevel r := by
  cases hvalid with
  | node hrule =>
    rw [List.map_append, List.map_singleton, he] at hrule
    obtain ⟨X, -, hlevel⟩ | ⟨t, hfront, hlevel⟩ := openRule_shape hrule (by simpa using hne)
    · rwa [hlevel]
    · obtain ⟨l, rest, rfl, hl, hrest⟩ := List.map_eq_cons_iff.mp hfront
      obtain ⟨T, rest', rfl, hT, -⟩ := List.map_eq_cons_iff.mp hrest
      cases T with
      | node => cases hT
      | token t' b =>
        obtain rfl := Symbol.terminal.inj hT
        rw [hlevel]
        exact Nat.le_of_lt (hleft t' (.here hl))

theorem RightRule.level_le {n q : Nat} (h : RightRule T q) (hvalid : T.Valid production reads builds)
    (hgrouped : Grouped T)
    (hn : n ≤ operatorLevels.length) (hleft : ∀ t, LeftOperator T t → n < level (.terminal t)) : n ≤ ruleLevel q := by
  induction h generalizing n with
  | here hne he => exact level_le_of_last hvalid hne he hn hleft
  | @right r q a front e hne he _ ih =>
    have hroot := level_le_of_last hvalid hne he hn hleft
    cases hvalid with
    | node _ _ hchildren =>
      cases hgrouped with
      | node _ hright hchildren' =>
        refine hroot.trans (ih (hchildren e (by simp)) (hchildren' e (by simp)) (ruleLevel_le r) fun t ht => ?_)
        exact hright front e rfl rfl hne he t ht

theorem front_of_split {front rest : List SqlTree} {l : SqlTree} {t : Nat} {b : ParseNode × Location}
    (h : front ++ [e] = l :: .token t b :: rest) (hne : front ≠ []) (he : e.root = .nonterminal .expr) :
    ∃ front', front = l :: .token t b :: front' := by
  obtain ⟨l', front, rfl⟩ := List.exists_cons_of_ne_nil hne
  obtain ⟨rfl, htail⟩ := List.cons.inj h
  cases front with
  | nil =>
    obtain ⟨rfl, -⟩ := List.cons.inj htail
    cases he
  | cons T front =>
    obtain ⟨rfl, -⟩ := List.cons.inj htail
    exact ⟨front, rfl⟩

theorem forall_mem_concat {α : Type} {P : α → Prop} {front : List α} {e : α} (hfront : ∀ T ∈ front, P T) (he : P e) :
    ∀ T ∈ front ++ [e], P T := by
  intro T hT
  obtain hT | hT := List.mem_append.mp hT
  · exact hfront T hT
  · obtain rfl := List.mem_singleton.mp hT
    exact he

structure Tail where
  rule : Nat
  operator : Nat
  attr : ParseNode × Location
  rest : List SqlTree

def Tail.word (x : Tail) : List (Nat × (ParseNode × Location)) := (x.operator, x.attr) :: x.rest.flatMap ParseTree.word

variable (reads builds) in
/-- Nothing stands between an operator and the operator of its operand. -/
structure Tail.Sound (x : Tail) : Prop where
  rule : production x.rule = some ⟨.expr, .nonterminal .expr :: .terminal x.operator :: x.rest.map ParseTree.root⟩
  read : reads x.operator x.attr
  valid : ∀ T ∈ x.rest, T.Valid production reads builds
  grouped : ∀ T ∈ x.rest, Grouped T
  closed : ∀ T ∈ x.rest.getLast?, ∀ t, ¬ LeftOperator T t

variable (hbuilds : ∀ r as, ∃ a, builds r as a)

include hbuilds

/-- An operator behind an expression that is grouped: it takes as much of the right edge as binds
at least as strongly. -/
theorem exists_insert (hvalid : T.Valid production reads builds) (hgrouped : Grouped T)
    (hroot : T.root = .nonterminal .expr)
    {x : Tail} (hx : x.Sound reads builds) :
    ∃ T' : SqlTree, T'.Valid production reads builds ∧ Grouped T' ∧ T'.root = .nonterminal .expr ∧
      T'.word = T.word ++ x.word ∧ ∀ t, LeftOperator T' t → t = x.operator ∨ LeftOperator T t := by
  induction T using ParseTree.induct with
  | token => cases hroot
  | node r B a children ih =>
    obtain rfl := Symbol.nonterminal.inj hroot
    obtain ⟨hrule, hchildren, hgroupedC, hleftG, hrightG⟩ := node_parts hvalid hgrouped
    by_cases hdown : ∃ front e, children = front ++ [e] ∧ front ≠ [] ∧ e.root = .nonterminal .expr ∧
        ruleLevel r < level (.terminal x.operator)
    · obtain ⟨front, e, rfl, hne, he, hlevel⟩ := hdown
      obtain ⟨e', hvalid', hgrouped', hroot', hword', hleft'⟩ :=
        ih e (by simp) (hchildren e (by simp)) (hgroupedC e (by simp)) he
      obtain ⟨a', ha'⟩ := hbuilds r ((front ++ [e']).map ParseTree.attr)
      refine ⟨.node r .expr a' (front ++ [e']), .node ?_ ha' ?_, .node ?_ ?_ ?_, rfl, ?_, ?_⟩
      · rw [hrule, List.map_append, List.map_append, List.map_singleton, List.map_singleton, he, hroot']
      · exact forall_mem_concat (fun T hT => hchildren T (by simp [hT])) hvalid'
      · intro l t b rest _ hsplit hl
        obtain ⟨front', rfl⟩ := front_of_split hsplit hne hroot'
        exact hleftG l t b (front' ++ [e]) rfl rfl hl
      · intro front' e'' _ hsplit _ _ t ht
        obtain ⟨rfl, rfl⟩ := List.append_singleton_inj.mp hsplit
        obtain rfl | ht := hleft' t ht
        · exact hlevel
        · exact hrightG front e rfl rfl hne he t ht
      · exact forall_mem_concat (fun T hT => hgroupedC T (by simp [hT])) hgrouped'
      · simp [hword']
      · intro t ht
        obtain ⟨l, rest, hsplit, hl, ⟨b, rest', rfl⟩ | ht⟩ := ht.elim
        · obtain ⟨front', rfl⟩ := front_of_split hsplit hne hroot'
          exact .inr (.here hl)
        · obtain ⟨l', front', rfl⟩ := List.exists_cons_of_ne_nil hne
          obtain ⟨rfl, -⟩ := List.cons.inj hsplit
          exact .inr (.left hl ht)
    · obtain ⟨a', ha'⟩ := hbuilds x.rule
        ((.node r .expr a children :: .token x.operator x.attr :: x.rest).map ParseTree.attr)
      refine ⟨.node x.rule .expr a' (.node r .expr a children :: .token x.operator x.attr :: x.rest), .node ?_ ha' ?_,
        .node ?_ ?_ ?_, rfl, ?_, ?_⟩
      · exact hx.rule
      · intro T hT
        obtain rfl | rfl | hT := by simpa using hT
        · exact hvalid
        · exact .token hx.read
        · exact hx.valid T hT
      · intro l t b rest _ hsplit _ q hq
        cases hsplit
        obtain ⟨front, e, rfl, hne, he, hq⟩ := hq.elim
        have hlevel : level (.terminal x.operator) ≤ ruleLevel r :=
          Nat.le_of_not_lt fun hlt => hdown ⟨front, e, rfl, hne, he, hlt⟩
        obtain rfl | hq := hq
        · exact hlevel
        · exact hlevel.trans (hq.level_le (hchildren e (by simp)) (hgroupedC e (by simp)) (ruleLevel_le r)
            (hrightG front e rfl rfl hne he))
      · intro front e _ hsplit _ he t ht
        refine (hx.closed e ?_ t ht).elim
        have hlast := congrArg List.getLast? hsplit
        rw [List.getLast?_concat, List.getLast?_cons_cons] at hlast
        cases hrest : x.rest with
        | nil =>
          rw [hrest] at hlast
          obtain rfl := Option.some.inj hlast
          cases he
        | cons T rest =>
          rw [hrest, List.getLast?_cons_cons] at hlast
          exact hlast
      · intro T hT
        obtain rfl | rfl | hT := by simpa using hT
        · exact hgrouped
        · exact .token _ _
        · exact hx.grouped T hT
      · simp [Tail.word]
      · intro t ht
        obtain ⟨l, rest, hsplit, -, ⟨b, rest', rfl⟩ | ht⟩ := ht.elim
        · cases hsplit
          exact .inl rfl
        · cases hsplit
          exact .inr ht

theorem exists_inserts (hvalid : T.Valid production reads builds) (hgrouped : Grouped T)
    (hroot : T.root = .nonterminal .expr) {xs : List Tail} (hxs : ∀ x ∈ xs, x.Sound reads builds) :
    ∃ T' : SqlTree, T'.Valid production reads builds ∧ Grouped T' ∧ T'.root = .nonterminal .expr ∧
      T'.word = T.word ++ xs.flatMap Tail.word := by
  induction xs generalizing T with
  | nil => exact ⟨T, hvalid, hgrouped, hroot, (List.append_nil _).symm⟩
  | cons x xs ih =>
    obtain ⟨T', hvalid', hgrouped', hroot', hword', -⟩ :=
      exists_insert hbuilds hvalid hgrouped hroot (hxs x List.mem_cons_self)
    obtain ⟨T'', hvalid'', hgrouped'', hroot'', hword''⟩ :=
      ih hvalid' hgrouped' hroot' fun x hx => hxs x (List.mem_cons_of_mem _ hx)
    exact ⟨T'', hvalid'', hgrouped'', hroot'', by rw [hword'', hword', List.append_assoc, List.flatMap_cons]⟩

omit hbuilds

variable (reads builds) in
/-- An operand without operators of its own, and the operators behind it. -/
structure Flat (T h : SqlTree) (xs : List Tail) : Prop where
  valid : h.Valid production reads builds
  grouped : Grouped h
  root : h.root = .nonterminal .expr
  closed : ∀ t, ¬ LeftOperator h t
  sound : ∀ x ∈ xs, x.Sound reads builds
  word : T.word = h.word ++ xs.flatMap Tail.word

variable (reads builds) in
structure Regrouped (T T' : SqlTree) : Prop where
  valid : T'.Valid production reads builds
  grouped : Grouped T'
  root : T'.root = T.root
  word : T'.word = T.word

theorem exists_forest {Ts : List SqlTree} (h : ∀ T ∈ Ts, ∃ T', Regrouped reads builds T T') :
    ∃ Ts' : List SqlTree, (∀ T ∈ Ts', T.Valid production reads builds) ∧ (∀ T ∈ Ts', Grouped T) ∧
      Ts'.map ParseTree.root = Ts.map ParseTree.root ∧ Ts'.flatMap ParseTree.word = Ts.flatMap ParseTree.word := by
  induction Ts with
  | nil => exact ⟨[], by simp, by simp, rfl, rfl⟩
  | cons T Ts ih =>
    obtain ⟨T', hT'⟩ := h T List.mem_cons_self
    obtain ⟨Ts', hvalid, hgrouped, hroots, hwords⟩ := ih fun T hT => h T (List.mem_cons_of_mem _ hT)
    refine ⟨T' :: Ts', List.forall_mem_cons.mpr ⟨hT'.valid, hvalid⟩, List.forall_mem_cons.mpr ⟨hT'.grouped, hgrouped⟩,
      ?_, ?_⟩
    · rw [List.map_cons, List.map_cons, hT'.root, hroots]
    · rw [List.flatMap_cons, List.flatMap_cons, hT'.word, hwords]

theorem concat_of_getLast {Ts Ts' : List SqlTree} (hroots : Ts'.map ParseTree.root = Ts.map ParseTree.root)
    (hT : T ∈ Ts'.getLast?) (hroot : T.root = .nonterminal .expr) :
    ∃ front e, Ts = front ++ [e] ∧ e.root = .nonterminal .expr := by
  have hlast := congrArg List.getLast? hroots
  rw [List.getLast?_map, List.getLast?_map, hT, Option.map_some, hroot] at hlast
  obtain ⟨e, he, hroot'⟩ := Option.map_eq_some_iff.mp hlast.symm
  obtain ⟨front, rfl⟩ := List.getLast?_eq_some_iff.mp he
  exact ⟨front, e, rfl, hroot'⟩

theorem flat_of_operand {r t : Nat} {a b : ParseNode × Location} {l : SqlTree} {rest : List SqlTree}
    (hvalid : (ParseTree.node r .expr a (l :: .token t b :: rest) : SqlTree).Valid production reads builds)
    (hl : l.root = .nonterminal .expr) {h : SqlTree} {xs : List Tail} (hflat : Flat reads builds l h xs)
    (hrest : ∀ T ∈ rest, (∃ T', Regrouped reads builds T T') ∧
      (T.root = .nonterminal .expr → ∃ h xs, Flat reads builds T h xs)) :
    ∃ h xs, Flat reads builds (.node r .expr a (l :: .token t b :: rest)) h xs := by
  cases hvalid with
  | node hrule _ hchildren =>
    have hread : reads t b := by
      have htoken := hchildren (.token t b) (by simp)
      cases htoken with
      | token h => exact h
    rw [List.map_cons, List.map_cons, hl] at hrule
    by_cases hopen : ∃ front e, rest = front ++ [e] ∧ e.root = .nonterminal .expr
    · obtain ⟨front, e, rfl, he⟩ := hopen
      obtain ⟨-, hshape⟩ := hrest e (by simp)
      obtain ⟨h', xs', hflat'⟩ := hshape he
      rw [List.map_append, List.map_singleton, he, ← List.cons_append, ← List.cons_append] at hrule
      obtain rfl : front = [] := by
        obtain ⟨X, hX, -⟩ | ⟨t', hX, -⟩ := openRule_shape hrule (List.cons_ne_nil _ _)
        · simp at hX
        · simpa using (List.cons.inj (List.cons.inj hX).2).2
      refine ⟨h, xs ++ ⟨r, t, b, [h']⟩ :: xs', hflat.valid, hflat.grouped, hflat.root, hflat.closed, ?_, ?_⟩
      · intro x hx
        obtain hx | rfl | hx := by simpa using hx
        · exact hflat.sound x hx
        · refine ⟨?_, hread, by simpa using hflat'.valid, by simpa using hflat'.grouped, by simpa using hflat'.closed⟩
          simpa [hflat'.root] using hrule
        · exact hflat'.sound x hx
      · simp [hflat.word, hflat'.word, Tail.word]
    · obtain ⟨rest', hvalid', hgrouped', hroots', hwords'⟩ := exists_forest fun T (hT : T ∈ rest) => (hrest T hT).1
      refine ⟨h, xs ++ [⟨r, t, b, rest'⟩], hflat.valid, hflat.grouped, hflat.root, hflat.closed, ?_, ?_⟩
      · refine forall_mem_concat hflat.sound ⟨?_, hread, hvalid', hgrouped', fun T hT t ht =>
          hopen (concat_of_getLast hroots' hT ht.root)⟩
        rw [hrule, hroots', ParseTree.root_token]
      · simp [hflat.word, Tail.word, hwords']

include hbuilds

theorem flat_of_node {r : Nat} {a : ParseNode × Location} {children : List SqlTree}
    (hvalid : (ParseTree.node r .expr a children : SqlTree).Valid production reads builds)
    (hfirst : ∀ l rest, children = l :: rest → l.root ≠ .nonterminal .expr)
    (hchildren : ∀ T ∈ children, (∃ T', Regrouped reads builds T T') ∧
      (T.root = .nonterminal .expr → ∃ h xs, Flat reads builds T h xs)) :
    ∃ h xs, Flat reads builds (.node r .expr a children) h xs := by
  have hnode : ∀ children' : List SqlTree, production r = some ⟨.expr, children'.map ParseTree.root⟩ →
      (∀ T ∈ children', T.Valid production reads builds) → (∀ T ∈ children', Grouped T) →
      (∀ e ∈ children'.getLast?, ∀ t, ¬ LeftOperator e t) → children'.map ParseTree.root = children.map ParseTree.root →
      ∃ h : SqlTree, h.Valid production reads builds ∧ Grouped h ∧ h.root = .nonterminal .expr ∧
        (∀ t, ¬ LeftOperator h t) ∧ h.word = children'.flatMap ParseTree.word := by
    intro children' hrule hvalid' hgrouped' hlast hroots
    have hfirst' : ∀ l rest, children' = l :: rest → l.root ≠ .nonterminal .expr := by
      rintro l rest rfl
      obtain ⟨l', rest', rfl, hl, -⟩ := List.map_eq_cons_iff.mp hroots.symm
      exact hl ▸ hfirst l' rest' rfl
    obtain ⟨a', ha'⟩ := hbuilds r (children'.map ParseTree.attr)
    refine ⟨.node r .expr a' children', .node hrule ha' hvalid', .node ?_ ?_ hgrouped', rfl, ?_, ?_⟩
    · intro l t b rest _ hsplit hl
      exact (hfirst' l _ hsplit hl).elim
    · intro front e _ hsplit _ _ t ht
      refine (hlast e ?_ t ht).elim
      rw [hsplit, List.getLast?_concat]
      rfl
    · intro t ht
      obtain ⟨l, rest, hsplit, hl, -⟩ := ht.elim
      exact hfirst' l rest hsplit hl
    · rw [ParseTree.word_node]
  obtain ⟨hrule, hchildren'⟩ : production r = some ⟨.expr, children.map ParseTree.root⟩ ∧
      ∀ T ∈ children, T.Valid production reads builds := by
    cases hvalid with
    | node hrule _ hchildren => exact ⟨hrule, hchildren⟩
  by_cases hopen : ∃ front e, children = front ++ [e] ∧ e.root = .nonterminal .expr
  · obtain ⟨front, e, rfl, he⟩ := hopen
    obtain ⟨-, hshape⟩ := hchildren e (by simp)
    obtain ⟨h', xs', hflat'⟩ := hshape he
    obtain ⟨front', hvalid', hgrouped', hroots', hwords'⟩ :=
      exists_forest fun T (hT : T ∈ front) => (hchildren T (by simp [hT])).1
    have hroots : (front' ++ [h']).map ParseTree.root = (front ++ [e]).map ParseTree.root := by
      simp [hroots', hflat'.root, he]
    obtain ⟨h, hvalidh, hgroupedh, hrooth, hclosed, hword⟩ := hnode (front' ++ [h']) (hroots ▸ hrule)
      (forall_mem_concat hvalid' hflat'.valid) (forall_mem_concat hgrouped' hflat'.grouped)
      (by simpa using hflat'.closed) hroots
    exact ⟨h, xs', hvalidh, hgroupedh, hrooth, hclosed, hflat'.sound, by simp [hword, hwords', hflat'.word]⟩
  · obtain ⟨children', hvalid', hgrouped', hroots', hwords'⟩ :=
      exists_forest fun T (hT : T ∈ children) => (hchildren T hT).1
    obtain ⟨h, hvalidh, hgroupedh, hrooth, hclosed, hword⟩ := hnode children' (hroots' ▸ hrule) hvalid' hgrouped'
      (fun T hT t ht => hopen (concat_of_getLast hroots' hT ht.root)) hroots'
    exact ⟨h, [], hvalidh, hgroupedh, hrooth, hclosed, by simp, by simp [hword, hwords']⟩

theorem exists_regrouped (T : SqlTree) (hvalid : T.Valid production reads builds) :
    (∃ T', Regrouped reads builds T T') ∧ (T.root = .nonterminal .expr → ∃ h xs, Flat reads builds T h xs) := by
  induction T using ParseTree.induct with
  | token t a =>
    refine ⟨⟨_, hvalid, .token t a, rfl, rfl⟩, fun hroot => ?_⟩
    cases hroot
  | node r B a children ih =>
    obtain ⟨hrule, hchildren⟩ : production r = some ⟨B, children.map ParseTree.root⟩ ∧
        ∀ T ∈ children, T.Valid production reads builds := by
      cases hvalid with
      | node hrule _ hchildren => exact ⟨hrule, hchildren⟩
    by_cases hB : B = .expr
    · subst hB
      have hflat : ∃ h xs, Flat reads builds (.node r .expr a children) h xs := by
        by_cases hfirst : ∃ l rest, children = l :: rest ∧ l.root = .nonterminal .expr
        · obtain ⟨l, rest, rfl, hl⟩ := hfirst
          rw [List.map_cons, hl] at hrule
          obtain ⟨t, Xs, hXs⟩ := operator_of_operand hrule
          obtain ⟨T, rest, rfl, hT, -⟩ := List.map_eq_cons_iff.mp hXs
          cases T with
          | node => cases hT
          | token t' b =>
            obtain ⟨h, xs, hflat⟩ := (ih l (by simp) (hchildren l (by simp))).2 hl
            exact flat_of_operand hvalid hl hflat fun T hT => ih T (by simp [hT]) (hchildren T (by simp [hT]))
        · refine flat_of_node hbuilds hvalid (fun l rest hsplit hl => hfirst ⟨l, rest, hsplit, hl⟩) fun T hT => ?_
          exact ih T hT (hchildren T hT)
      obtain ⟨h, xs, hflat⟩ := hflat
      obtain ⟨T', hvalid', hgrouped', hroot', hword'⟩ :=
        exists_inserts hbuilds hflat.valid hflat.grouped hflat.root hflat.sound
      exact ⟨⟨T', hvalid', hgrouped', hroot', hword'.trans hflat.word.symm⟩, fun _ => ⟨h, xs, hflat⟩⟩
    · obtain ⟨children', hvalid', hgrouped', hroots', hwords'⟩ := exists_forest fun T (hT : T ∈ children) =>
        (ih T hT (hchildren T hT)).1
      obtain ⟨a', ha'⟩ := hbuilds r (children'.map ParseTree.attr)
      refine ⟨⟨.node r B a' children', .node (hroots' ▸ hrule) ha' hvalid', .node ?_ ?_ hgrouped',
        rfl, ?_⟩, fun hroot => ?_⟩
      · intro _ _ _ _ hexpr
        exact (hB hexpr).elim
      · intro _ _ hexpr
        exact (hB hexpr).elim
      · rw [ParseTree.word_node, ParseTree.word_node, hwords']
      · exact (hB (Symbol.nonterminal.inj hroot)).elim

end Regroup

end LevelPgServer.SqlParser
