import LevelPgServer.Lib.Lalr

/-! Runs of the driver through configurations of one kind. -/

namespace LevelPgServer.Lalr

variable {ε σ V L : Type} {A : Lalr} {acts : Actions ε σ V L} {Q Q' : Config σ V L → Prop} {c c' d : Config σ V L}

/-- A run from `c` to `d` whose configurations before `d` meet `Q`. -/
inductive Via (A : Lalr) (acts : Actions ε σ V L) (Q : Config σ V L → Prop) : Config σ V L → Config σ V L → Prop
  | refl (c : Config σ V L) : Via A acts Q c c
  | next {c c' d : Config σ V L} (hc : Q c) (hstep : step A acts c = .run c') (h : Via A acts Q c' d) : Via A acts Q c d

theorem Via.single (hc : Q c) (hstep : step A acts c = .run c') : Via A acts Q c c' := .next hc hstep (.refl c')

theorem Via.trans (h : Via A acts Q c c') (h' : Via A acts Q c' d) : Via A acts Q c d := by
  induction h with
  | refl => exact h'
  | next hc hstep _ ih => exact .next hc hstep (ih h')

theorem Via.mono (hQ : ∀ c, Q c → Q' c) (h : Via A acts Q c d) : Via A acts Q' c d := by
  induction h with
  | refl => exact .refl _
  | next hc hstep _ ih => exact .next (hQ _ hc) hstep ih

theorem Via.reaches (h : Via A acts Q c d) : Reaches A acts c d := by
  induction h with
  | refl => exact .refl _
  | next _ hstep _ ih => exact .step hstep ih

/-- The driver is deterministic: a run that leaves `Q` goes through every configuration that a run
within `Q` reaches. -/
theorem Via.after (h : Via A acts Q c d) (hd : Q d) (h' : Via A acts Q c c') (hc' : ¬ Q c') : Via A acts Q d c' := by
  induction h with
  | refl => exact h'
  | next hc hstep _ ih =>
    cases h' with
    | refl => exact absurd hc hc'
    | next _ hstep' h' =>
      cases hstep.symm.trans hstep'
      exact ih hd h'

theorem Via.unique (h : Via A acts Q c d) (hd : ¬ Q d) (h' : Via A acts Q c c') (hc' : ¬ Q c') : d = c' := by
  induction h with
  | refl =>
    cases h' with
    | refl => rfl
    | next hc _ _ => exact absurd hc hd
  | next hc hstep _ ih =>
    cases h' with
    | refl => exact absurd hc hc'
    | next _ hstep' h' =>
      cases hstep.symm.trans hstep'
      exact ih hd h'

section Steps

variable {top : Frame V L} {below : List (Frame V L)} {env : σ}

/-- What the tables say in a state that is not final, as far as the stack has room. -/
theorem todo_room (hroom : below.length + 1 < A.maxDepth) (hfinal : top.state ≠ A.final) (look : Option Nat) :
    A.todo { stack := top :: below, lookahead := look, env } =
      if A.consistent top.state then A.byDefault top.state
      else
        match look with
        | none => .lex
        | some t =>
          match A.shift top.state t with
          | some s => .shift s
          | none => A.byDefault top.state := by
  have hfits : ¬A.maxDepth ≤ below.length + 1 := Nat.not_le.mpr hroom
  exact (if_neg hfits).trans (if_neg hfinal)

theorem step_lex (hroom : below.length + 1 < A.maxDepth) (hfinal : top.state ≠ A.final)
    (hcons : A.consistent top.state = false) :
    step A acts { stack := top :: below, lookahead := none, env } =
      match acts.lex env with
      | .ok t env' => .run { stack := top :: below, lookahead := t, env := env' }
      | .error e env' => .stop (.thrown e) env' := by
  unfold step
  rw [todo_room hroom hfinal, hcons]
  rfl

theorem step_shift (hroom : below.length + 1 < A.maxDepth) (hfinal : top.state ≠ A.final)
    (hcons : A.consistent top.state = false) {t s : Nat} (hs : A.shift top.state t = some s) :
    step A acts { stack := top :: below, lookahead := some t, env } =
      .run { stack := ⟨s, acts.tokenValue env, acts.tokenLoc env⟩ :: top :: below, lookahead := none, env } := by
  unfold step
  rw [todo_room hroom hfinal, hcons]
  simp only [Bool.false_eq_true, if_false, hs]

theorem step_reduce (hroom : below.length + 1 < A.maxDepth) (hfinal : top.state ≠ A.final)
    (hcons : A.consistent top.state = true) {r : Nat} (hr : A.reduce top.state = some r) (look : Option Nat) :
    step A acts { stack := top :: below, lookahead := look, env } =
      reduceBy A acts r { stack := top :: below, lookahead := look, env } := by
  unfold step
  rw [todo_room hroom hfinal, hcons, if_pos rfl, byDefault, hr]

theorem step_exhausted (hroom : A.maxDepth ≤ below.length + 1) (look : Option Nat) :
    step A acts { stack := top :: below, lookahead := look, env } = .stop .exhausted (acts.exhausted env) := by
  unfold step todo
  dsimp only
  rw [if_pos hroom]

variable {c : Config σ V L} {base : Frame V L} {rest : List (Frame V L)} {r : Nat}

theorem reduceBy_value (hdrop : c.stack.drop (A.length r) = base :: rest) {v : V} {env' : σ}
    (haction : acts.reduce r (A.rhs r c) (acts.span base.loc ((A.rhs r c).map Prod.snd)) c.env = .ok (.value v) env') :
    reduceBy A acts r c = .run
      { stack := ⟨A.goto base.state (A.lhs r), v, acts.span base.loc ((A.rhs r c).map Prod.snd)⟩ :: base :: rest,
        lookahead := c.lookahead, env := env' } := by
  unfold reduceBy
  rw [hdrop]
  dsimp only
  rw [haction]

theorem reduceBy_error (hdrop : c.stack.drop (A.length r) = base :: rest) {e : ε} {env' : σ}
    (haction : acts.reduce r (A.rhs r c) (acts.span base.loc ((A.rhs r c).map Prod.snd)) c.env = .error e env') :
    reduceBy A acts r c = .stop (.thrown e) env' := by
  unfold reduceBy
  rw [hdrop]
  dsimp only
  rw [haction]

end Steps

end LevelPgServer.Lalr
