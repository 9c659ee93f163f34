import LevelPgServer.Lib.Lalr
import LevelPgServer.Lib.ParseTree

/-! The derivation trees that lie on the stack of the driver, when its tables stand for the rules of a
grammar. -/

namespace LevelPgServer.Lalr

variable {ε σ V L N : Type} {A : Lalr} {acts : Actions ε σ V L} {G : Ground A}
  {rules : Nat → Option (ContextFreeRule Nat N)}

/-- The symbol that leads to each state: what a reduction pops spells the right side of its rule. -/
structure Spelling (G : Ground A) (rules : Nat → Option (ContextFreeRule Nat N)) where
  symbol : Nat → Symbol Nat N
  shift_symbol : ∀ s t s', A.shift s t = some s' → symbol s' = .terminal t
  spelled : ∀ s ≠ A.final, ∀ r, A.reduce s = some r → ∃ R, rules r = some R ∧ R.output.length = A.length r ∧
    (∀ k < A.length r, ∀ p ∈ under G.below k s, R.output.reverse[k]? = some (symbol p)) ∧
    ∀ p ∈ under G.below (A.length r) s, symbol (A.goto p (A.lhs r)) = .nonterminal R.input

namespace Spelling

variable (P : Spelling G rules)

inductive On : List (Frame V L) → List (ParseTree N (V × L)) → Prop
  | bottom {f : Frame V L} (h : f.state = 0) : On [f] []
  | push {f g : Frame V L} {fs : List (Frame V L)} {T : ParseTree N (V × L)} {Ts : List (ParseTree N (V × L))}
      (hbelow : g.state ∈ G.below f.state) (hsymbol : P.symbol f.state = T.root) (hattr : T.attr = (f.value, f.loc))
      (hon : On (g :: fs) Ts) : On (f :: g :: fs) (T :: Ts)

variable {P} {f g : Frame V L} {fs gs : List (Frame V L)} {T : ParseTree N (V × L)} {Ts : List (ParseTree N (V × L))}

theorem On.path (h : P.On fs Ts) : G.Path fs := by
  induction h with
  | bottom h => exact .bottom h
  | push hbelow _ _ _ ih => exact .push hbelow ih

theorem On.drop {n : Nat} (h : P.On (f :: fs) Ts) (hdeep : ∀ k < n, 0 ∉ under G.below k f.state) :
    n ≤ Ts.length ∧ P.On ((f :: fs).drop n) (Ts.drop n) ∧
      ((f :: fs).take n).map (fun f => (f.value, f.loc)) = (Ts.take n).map ParseTree.attr ∧
      ∀ k < n, ∃ p ∈ under G.below k f.state, (Ts.map ParseTree.root)[k]? = some (P.symbol p) := by
  induction n generalizing f fs Ts with
  | zero => exact ⟨Nat.zero_le _, h, rfl, fun k hk => absurd hk (Nat.not_lt_zero k)⟩
  | succ n ih =>
    cases h with
    | bottom h => exact (hdeep 0 (Nat.succ_pos n) (by simp [under, h])).elim
    | @push _ g fs T Ts hbelow hsymbol hattr hon =>
      have hsub : ∀ k < n, 0 ∉ under G.below k g.state := fun k hk hmem =>
        hdeep (k + 1) (Nat.succ_lt_succ hk) (List.mem_flatMap.mpr ⟨g.state, hbelow, hmem⟩)
      obtain ⟨hlen, hdrop, hvalues, hsymbols⟩ := ih hon hsub
      refine ⟨Nat.succ_le_succ hlen, hdrop, ?_, ?_⟩
      · simp only [List.take_succ_cons, List.map_cons, hvalues, hattr]
      · intro k hk
        cases k with
        | zero => exact ⟨f.state, List.mem_singleton.mpr rfl, by simp [hsymbol]⟩
        | succ k =>
          obtain ⟨p, hp, hroot⟩ := hsymbols k (Nat.lt_of_succ_lt_succ hk)
          exact ⟨p, List.mem_flatMap.mpr ⟨g.state, hbelow, hp⟩, by simpa using hroot⟩

theorem On.pops {r : Nat} {base : Frame V L} {rest : List (Frame V L)} (h : P.On (f :: fs) Ts)
    (hfinal : f.state ≠ A.final) (hreduce : A.reduce f.state = some r)
    (hdrop : (f :: fs).drop (A.length r) = base :: rest) :
    ∃ R popped kept, rules r = some R ∧ Ts = popped ++ kept ∧ popped.length = A.length r ∧
      popped.reverse.map ParseTree.root = R.output ∧
      (((f :: fs).take (A.length r)).reverse.map fun f => (f.value, f.loc)) = popped.reverse.map ParseTree.attr ∧
      base.state ∈ under G.below (A.length r) f.state ∧
      P.symbol (A.goto base.state (A.lhs r)) = .nonterminal R.input ∧ P.On (base :: rest) kept := by
  obtain ⟨R, hR, hlength, hspell, hgoto⟩ := P.spelled _ hfinal _ hreduce
  have hdeep := G.deep _ hfinal _ hreduce
  obtain ⟨hlen, hon, hvalues, hsymbols⟩ := h.drop hdeep
  obtain ⟨b, bs, hdrop', hmem, -⟩ := h.path.drop hdeep
  obtain ⟨rfl, rfl⟩ := List.cons.inj (hdrop.symm.trans hdrop')
  have htake : (Ts.take (A.length r)).length = A.length r := List.length_take_of_le hlen
  refine ⟨R, Ts.take (A.length r), Ts.drop (A.length r), hR, (List.take_append_drop _ _).symm, htake, ?_, ?_, hmem,
    hgoto _ hmem, hdrop ▸ hon⟩
  · rw [List.map_reverse, List.reverse_eq_iff]
    refine List.ext_getElem? fun k => ?_
    by_cases hk : k < A.length r
    · obtain ⟨p, hp, hroot⟩ := hsymbols k hk
      rw [List.map_take, List.getElem?_take_of_lt hk, hroot, hspell k hk p hp]
    · have hk := Nat.le_of_not_lt hk
      have hroots : ((Ts.take (A.length r)).map ParseTree.root).length ≤ k := by rwa [List.length_map, htake]
      rw [List.getElem?_eq_none hroots, List.getElem?_eq_none (by simpa [hlength] using hk)]
  · rw [List.map_reverse, hvalues, List.map_reverse]

end Spelling

/-- The token that is read ahead, with the value and the location that it has in the state. -/
def ahead (acts : Actions ε σ V L) (t : Option Nat) (env : σ) : List (Nat × (V × L)) :=
  t.toList.map fun t => (t, acts.tokenValue env, acts.tokenLoc env)

/-- What the actions read and make: the tokens that have been read when the state is `env`, with their values,
and the values a rule makes of those of its right side. -/
structure Reading (P : Spelling G rules) (acts : Actions ε σ V L) where
  took : σ → List (Nat × (V × L)) → Prop
  builds : Nat → List (V × L) → V × L → Prop
  lex : ∀ env ts t env', took env ts → acts.lex env = .ok t env' → took env' (ts ++ ahead acts t env')
  reduce : ∀ env ts r as base v env', took env ts →
    acts.reduce r as (acts.span base (as.map Prod.snd)) env = .ok (.value v) env' →
      took env' ts ∧ builds r as (v, acts.span base (as.map Prod.snd))
  keeps : ∀ s r, A.reduce s = some r →
    (∃ t, P.symbol s = .terminal t ∧ A.consistent s = true) ∨
      ∀ as loc env v env', acts.reduce r as loc env = .ok (.value v) env' →
        acts.tokenValue env' = acts.tokenValue env ∧ acts.tokenLoc env' = acts.tokenLoc env

variable {P : Spelling G rules} {D : Reading P acts} {c c' : Config σ V L} {Ts Ts' : List (ParseTree N (V × L))}

/-- The trees on the stack are valid, and with the token that is read ahead they are what has been read. -/
structure Stands (D : Reading P acts) (c : Config σ V L) (Ts : List (ParseTree N (V × L))) : Prop where
  on : P.On c.stack Ts
  valid : ∀ T ∈ Ts, T.Valid rules (fun _ _ => True) D.builds
  took : D.took c.env (Ts.reverse.flatMap ParseTree.word ++ ahead acts c.lookahead c.env)
  fresh : ∀ top below t, c.stack = top :: below → P.symbol top.state = .terminal t → A.consistent top.state = true →
    c.lookahead = none

inductive Grows (A : Lalr) (rules : Nat → Option (ContextFreeRule Nat N)) (c : Config σ V L)
    (Ts : List (ParseTree N (V × L))) : Config σ V L → List (ParseTree N (V × L)) → Prop
  | lex {t : Option Nat} {env : σ} (htodo : A.todo c = .lex) :
      Grows A rules c Ts { stack := c.stack, lookahead := t, env } Ts
  | shift {s t : Nat} {v : V} {l : L} (htodo : A.todo c = .shift s) (hlook : c.lookahead = some t) :
      Grows A rules c Ts { stack := ⟨s, v, l⟩ :: c.stack, lookahead := none, env := c.env } (.token t (v, l) :: Ts)
  | reduce {r : Nat} {R : ContextFreeRule Nat N} {base : Frame V L} {rest : List (Frame V L)} {v : V} {l : L} {env : σ}
      {popped kept : List (ParseTree N (V × L))} (htodo : A.todo c = .reduce r)
      (hdrop : c.stack.drop (A.length r) = base :: rest) (hrule : rules r = some R) (htrees : Ts = popped ++ kept)
      (hlen : popped.length = A.length r) (hroots : popped.reverse.map ParseTree.root = R.output) :
      Grows A rules c Ts { stack := ⟨A.goto base.state (A.lhs r), v, l⟩ :: base :: rest, lookahead := c.lookahead, env }
        (.node r R.input (v, l) popped.reverse :: kept)

theorem step_reduces {r : Nat} (htodo : A.todo c = .reduce r) (hstep : step A acts c = .run c') :
    ∃ base rest v env, c.stack.drop (A.length r) = base :: rest ∧
      acts.reduce r (A.rhs r c) (acts.span base.loc ((A.rhs r c).map Prod.snd)) c.env = .ok (.value v) env ∧
      c' = { stack := ⟨A.goto base.state (A.lhs r), v, acts.span base.loc ((A.rhs r c).map Prod.snd)⟩ :: base :: rest
             lookahead := c.lookahead, env } := by
  unfold step at hstep
  rw [htodo] at hstep
  dsimp only at hstep
  unfold reduceBy at hstep
  cases hdrop : c.stack.drop (A.length r) with
  | nil =>
    rw [hdrop] at hstep
    cases hstep
  | cons base rest =>
    rw [hdrop] at hstep
    dsimp only at hstep
    split at hstep
    case h_4 v env haction =>
      cases hstep
      exact ⟨base, rest, v, env, rfl, haction, rfl⟩
    all_goals cases hstep

theorem Stands.step (h : Stands D c Ts) (hstep : step A acts c = .run c') :
    ∃ Ts', Stands D c' Ts' ∧ Grows A rules c Ts c' Ts' := by
  have hmove := step_run hstep
  cases hmove with
  | @lex t env htodo hlex =>
    obtain ⟨top, below, hstack, hstate, hlook⟩ := todo_lex htodo
    have htook := h.took
    rw [hlook, ahead, Option.toList_none, List.map_nil, List.append_nil] at htook
    refine ⟨Ts, ⟨h.on, h.valid, D.lex _ _ _ _ htook hlex, ?_⟩, .lex htodo⟩
    intro top' below' _ hstack' _ hconsistent
    obtain ⟨rfl, -⟩ := List.cons.inj (hstack.symm.trans hstack')
    rw [hstate] at hconsistent
    cases hconsistent
  | @shift s htodo =>
    obtain ⟨top, below, t, hstack, hstate, hlook, hshift⟩ := todo_shift htodo
    refine ⟨.token t (acts.tokenValue c.env, acts.tokenLoc c.env) :: Ts, ⟨?_, ?_, ?_, fun _ _ _ _ _ _ => rfl⟩,
      .shift htodo hlook⟩
    · have hon := h.on
      rw [hstack] at hon ⊢
      exact .push (G.shift_mem _ _ _ hshift) (P.shift_symbol _ _ _ hshift) rfl hon
    · intro T hT
      obtain rfl | hT := List.mem_cons.mp hT
      · exact .token trivial
      · exact h.valid T hT
    · have htook := h.took
      rw [hlook] at htook
      simpa [ahead] using htook
  | @reduce r base rest v loc env htodo hdrop haction =>
    obtain ⟨base', rest', v', env', hdrop', haction', heq⟩ := step_reduces htodo hstep
    obtain ⟨rfl, rfl⟩ := List.cons.inj (hdrop.symm.trans hdrop')
    obtain ⟨hframe, -⟩ := List.cons.inj (congrArg Config.stack heq)
    obtain rfl : loc = acts.span base.loc ((A.rhs r c).map Prod.snd) := congrArg Frame.loc hframe
    obtain ⟨top, below, hstack, hfinal, hreduce⟩ := todo_reduce htodo
    have hon := h.on
    rw [hstack] at hon hdrop
    obtain ⟨R, popped, kept, hR, rfl, hlen, hroots, hattrs, hmem, hsymbol, hkept⟩ := hon.pops hfinal hreduce hdrop
    have hrhs : A.rhs r c = popped.reverse.map ParseTree.attr := by rw [rhs, hstack, hattrs]
    obtain ⟨htook, hbuilds⟩ := D.reduce _ _ _ _ _ _ _ h.took haction
    refine ⟨.node r R.input (v, acts.span base.loc ((A.rhs r c).map Prod.snd)) popped.reverse :: kept,
      ⟨.push (G.goto_mem _ hfinal _ hreduce _ hmem) hsymbol rfl hkept, ?_, ?_, ?_⟩,
      .reduce htodo (hstack ▸ hdrop) hR rfl hlen hroots⟩
    · intro T hT
      obtain rfl | hT := List.mem_cons.mp hT
      · rw [hrhs] at hbuilds
        refine .node (hR.trans ?_) (hrhs ▸ hbuilds) fun T hT => ?_
        · rw [hroots]
        · exact h.valid T (List.mem_append_left _ (List.mem_reverse.mp hT))
      · exact h.valid T (List.mem_append_right _ hT)
    · have hahead : ahead acts c.lookahead env = ahead acts c.lookahead c.env := by
        obtain ⟨s, hs, hconsistent⟩ | hkeeps := D.keeps _ _ hreduce
        · rw [h.fresh top below s hstack hs hconsistent]
          rfl
        · obtain ⟨hvalue, hloc⟩ := hkeeps _ _ _ _ _ haction
          rw [ahead, ahead, hvalue, hloc]
      change D.took env (_ ++ ahead acts c.lookahead env)
      rw [hahead]
      simpa using htook
    · intro top' below' t hstack' hterminal
      obtain ⟨rfl, -⟩ := List.cons.inj hstack'
      rw [hsymbol] at hterminal
      cases hterminal

theorem Stands.accepts {env : σ} (h : Stands D c Ts) (htodo : A.todo c ≠ .accept)
    (hstep : Lalr.step A acts c = .stop .accepted env) :
    ∃ r R top below base rest popped kept, A.todo c = .reduce r ∧ c.stack = top :: below ∧ A.reduce top.state = some r ∧
      rules r = some R ∧ Ts = popped ++ kept ∧ popped.reverse.map ParseTree.root = R.output ∧
      base.state ∈ under G.below (A.length r) top.state ∧ P.On (base :: rest) kept ∧
      acts.reduce r (popped.reverse.map ParseTree.attr)
        (acts.span base.loc ((popped.reverse.map ParseTree.attr).map Prod.snd)) c.env = .ok .accept env := by
  unfold Lalr.step at hstep
  split at hstep
  case h_3 r hr =>
    obtain ⟨top, below, hstack, hfinal, hreduce⟩ := todo_reduce hr
    unfold reduceBy at hstep
    split at hstep
    case h_1 => cases hstep
    case h_2 base rest hdrop =>
      have hon := h.on
      rw [hstack] at hon hdrop
      obtain ⟨R, popped, kept, hR, rfl, -, hroots, hattrs, hmem, -, hkept⟩ := hon.pops hfinal hreduce hdrop
      have hrhs : A.rhs r c = popped.reverse.map ParseTree.attr := by rw [rhs, hstack, hattrs]
      dsimp only at hstep
      split at hstep
      case h_2 haction =>
        cases hstep
        exact ⟨r, R, top, below, base, rest, popped, kept, hr, hstack, hreduce, hR, rfl, hroots, hmem, hkept,
          hrhs ▸ haction⟩
      all_goals cases hstep
  case h_6 haccept => exact (htodo haccept).elim
  case h_1 =>
    split at hstep
    case h_1 => cases hstep
    case h_2 => cases hstep
  all_goals cases hstep

theorem run_steps {I : Config σ V L → Prop} {Q : Outcome ε → σ → Prop} {o : Outcome ε} {env : σ} {n : Nat}
    (hrun : ∀ d d', I d → step A acts d = .run d' → I d')
    (hstop : ∀ d o env, I d → step A acts d = .stop o env → Q o env) (hc : I c) (h : run A acts n c = some (o, env)) :
    Q o env := by
  induction n generalizing c with
  | zero => cases h
  | succ n ih =>
    unfold run at h
    cases hstep : step A acts c with
    | stop o' env' =>
      rw [hstep] at h
      cases h
      exact hstop _ _ _ hc hstep
    | run c' =>
      rw [hstep] at h
      exact ih (hrun _ _ hc hstep) h

end LevelPgServer.Lalr
