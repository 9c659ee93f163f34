import Mathlib.Tactic

/-! The driver of an LALR parser whose grammar has no `error` token: it shifts and reduces on a
stack of states with one token of lookahead, and gives up at the first error. -/

namespace LevelPgServer

/-- The tables of a parser. A consistent state reduces without looking at the next token. -/
structure Lalr where
  consistent : Nat → Bool
  shift : Nat → Nat → Option Nat
  reduce : Nat → Option Nat
  length : Nat → Nat
  lhs : Nat → Nat
  goto : Nat → Nat → Nat
  final : Nat
  maxDepth : Nat

namespace Lalr

/-- How the action of a rule ends: with the value of its left side, or it accepts, or it raises
an error. -/
inductive Verdict (V : Type)
  | value (v : V)
  | accept
  | error

/-- What the driver calls: one match of the scanner, which may give no token, the value and the
location of the token it has read, the actions of the rules and the reports of errors. -/
structure Actions (ε σ V L : Type) where
  lex : EStateM ε σ (Option Nat)
  tokenValue : σ → V
  tokenLoc : σ → L
  span : L → List L → L
  reduce : Nat → List (V × L) → L → EStateM ε σ (Verdict V)
  syntaxError : σ → σ
  exhausted : σ → σ

structure Frame (V L : Type) where
  state : Nat
  value : V
  loc : L

structure Config (σ V L : Type) where
  stack : List (Frame V L)
  lookahead : Option Nat
  env : σ

inductive Outcome (ε : Type)
  | accepted
  | aborted
  | exhausted
  | thrown (e : ε)
  | underflow

inductive Next (ε σ V L : Type)
  | run (c : Config σ V L)
  | stop (o : Outcome ε) (env : σ)

inductive Todo
  | lex
  | shift (s : Nat)
  | reduce (r : Nat)
  | syntaxError
  | exhausted
  | accept
  | underflow

variable {ε σ V L : Type} (A : Lalr) (acts : Actions ε σ V L)

def byDefault (s : Nat) : Todo :=
  match A.reduce s with
  | none => .syntaxError
  | some r => .reduce r

def todo (c : Config σ V L) : Todo :=
  match c.stack with
  | [] => .underflow
  | top :: below =>
    if A.maxDepth ≤ below.length + 1 then .exhausted
    else if top.state = A.final then .accept
    else if A.consistent top.state then A.byDefault top.state
    else
      match c.lookahead with
      | none => .lex
      | some t =>
        match A.shift top.state t with
        | some s => .shift s
        | none => A.byDefault top.state

/-- The values and locations of the right side of a rule. -/
def rhs (r : Nat) (c : Config σ V L) : List (V × L) :=
  (c.stack.take (A.length r)).reverse.map fun f => (f.value, f.loc)

def reduceBy (r : Nat) (c : Config σ V L) : Next ε σ V L :=
  match c.stack.drop (A.length r) with
  | [] => .stop .underflow c.env
  | base :: rest =>
    let loc := acts.span base.loc ((A.rhs r c).map Prod.snd)
    match acts.reduce r (A.rhs r c) loc c.env with
    | .error e env => .stop (.thrown e) env
    | .ok .accept env => .stop .accepted env
    | .ok .error env => .stop .aborted env
    | .ok (.value v) env =>
      .run { stack := ⟨A.goto base.state (A.lhs r), v, loc⟩ :: base :: rest, lookahead := c.lookahead, env }

def step (c : Config σ V L) : Next ε σ V L :=
  match A.todo c with
  | .lex =>
    match acts.lex c.env with
    | .ok t env => .run { stack := c.stack, lookahead := t, env }
    | .error e env => .stop (.thrown e) env
  | .shift s =>
    .run { stack := ⟨s, acts.tokenValue c.env, acts.tokenLoc c.env⟩ :: c.stack, lookahead := none, env := c.env }
  | .reduce r => reduceBy A acts r c
  | .syntaxError => .stop .aborted (acts.syntaxError c.env)
  | .exhausted => .stop .exhausted (acts.exhausted c.env)
  | .accept => .stop .accepted c.env
  | .underflow => .stop .underflow c.env

def run : Nat → Config σ V L → Option (Outcome ε × σ)
  | 0, _ => none
  | n + 1, c =>
    match step A acts c with
    | .stop o env => some (o, env)
    | .run c' => run n c'

inductive Moves (c : Config σ V L) : Config σ V L → Prop
  | lex {t : Option Nat} {env : σ} (htodo : A.todo c = .lex) (hlex : acts.lex c.env = .ok t env) :
      Moves c { stack := c.stack, lookahead := t, env }
  | shift {s : Nat} (htodo : A.todo c = .shift s) :
      Moves c { stack := ⟨s, acts.tokenValue c.env, acts.tokenLoc c.env⟩ :: c.stack, lookahead := none, env := c.env }
  | reduce {r : Nat} {base : Frame V L} {rest : List (Frame V L)} {v : V} {loc : L} {env : σ}
      (htodo : A.todo c = .reduce r) (hdrop : c.stack.drop (A.length r) = base :: rest)
      (haction : acts.reduce r (A.rhs r c) loc c.env = .ok (.value v) env) :
      Moves c { stack := ⟨A.goto base.state (A.lhs r), v, loc⟩ :: base :: rest, lookahead := c.lookahead, env }

inductive Stops (c : Config σ V L) : Outcome ε → σ → Prop
  | lex {e : ε} {env : σ} (htodo : A.todo c = .lex) (hlex : acts.lex c.env = .error e env) : Stops c (.thrown e) env
  | action {r : Nat} {loc : L} {e : ε} {env : σ} (htodo : A.todo c = .reduce r)
      (haction : acts.reduce r (A.rhs r c) loc c.env = .error e env) : Stops c (.thrown e) env
  | accept {r : Nat} {loc : L} {env : σ} (htodo : A.todo c = .reduce r)
      (haction : acts.reduce r (A.rhs r c) loc c.env = .ok .accept env) : Stops c .accepted env
  | error {r : Nat} {loc : L} {env : σ} (htodo : A.todo c = .reduce r)
      (haction : acts.reduce r (A.rhs r c) loc c.env = .ok .error env) : Stops c .aborted env
  | final (htodo : A.todo c = .accept) : Stops c .accepted c.env
  | rejected (htodo : A.todo c = .syntaxError) : Stops c .aborted (acts.syntaxError c.env)
  | exhausted (htodo : A.todo c = .exhausted) : Stops c .exhausted (acts.exhausted c.env)
  | empty (htodo : A.todo c = .underflow) : Stops c .underflow c.env
  | underflow {r : Nat} (htodo : A.todo c = .reduce r) (hdrop : c.stack.drop (A.length r) = []) :
      Stops c .underflow c.env

variable {A acts} {c c' : Config σ V L} {o : Outcome ε} {env : σ}

theorem byDefault_cases (s : Nat) :
    A.byDefault s = .syntaxError ∨ ∃ r, A.reduce s = some r ∧ A.byDefault s = .reduce r := by
  unfold byDefault
  cases h : A.reduce s with
  | none => exact .inl rfl
  | some r => exact .inr ⟨r, rfl, rfl⟩

/-- What the tables say where the driver does not stop at once. -/
theorem todo_cases (c : Config σ V L) :
    A.todo c = .underflow ∧ c.stack = [] ∨ A.todo c = .exhausted ∨ A.todo c = .accept ∨
    ∃ top below, c.stack = top :: below ∧ top.state ≠ A.final ∧
      (A.todo c = .lex ∧ A.consistent top.state = false ∧ c.lookahead = none ∨
      (∃ t s, A.todo c = .shift s ∧ A.consistent top.state = false ∧ c.lookahead = some t ∧
        A.shift top.state t = some s) ∨
      A.todo c = .syntaxError ∨ ∃ r, A.reduce top.state = some r ∧ A.todo c = .reduce r) := by
  unfold todo
  cases hstack : c.stack with
  | nil => exact .inl ⟨rfl, rfl⟩
  | cons top below =>
    dsimp only
    split
    case isTrue => exact .inr (.inl rfl)
    case isFalse =>
      split
      case isTrue => exact .inr (.inr (.inl rfl))
      case isFalse hfinal =>
        refine .inr (.inr (.inr ⟨top, below, rfl, hfinal, ?_⟩))
        split
        case isTrue => exact .inr (.inr (byDefault_cases top.state))
        case isFalse hstate =>
          have hstate : A.consistent top.state = false := Bool.eq_false_iff.mpr hstate
          cases c.lookahead with
          | none => exact .inl ⟨rfl, hstate, rfl⟩
          | some t =>
            dsimp only
            cases hshift : A.shift top.state t with
            | some s => exact .inr (.inl ⟨t, s, rfl, hstate, rfl, hshift⟩)
            | none => exact .inr (.inr (byDefault_cases top.state))

theorem todo_lex (h : A.todo c = .lex) :
    ∃ top below, c.stack = top :: below ∧ A.consistent top.state = false ∧ c.lookahead = none := by
  obtain ⟨h', -⟩ | h' | h' | ⟨top, below, hstack, -, ⟨-, hstate, hlook⟩ | ⟨t, s, h', -⟩ | h' | ⟨r, -, h'⟩⟩ :=
    todo_cases (A := A) c
  case inr.inr.inr.inl => exact ⟨top, below, hstack, hstate, hlook⟩
  all_goals rw [h] at h'; cases h'

theorem todo_shift {s : Nat} (h : A.todo c = .shift s) :
    ∃ top below t, c.stack = top :: below ∧ A.consistent top.state = false ∧ c.lookahead = some t ∧
      A.shift top.state t = some s := by
  obtain ⟨h', -⟩ | h' | h' | ⟨top, below, hstack, -, ⟨h', -⟩ | ⟨t, s', h', hstate, hlook, hshift⟩ | h' | ⟨r, -, h'⟩⟩ :=
    todo_cases (A := A) c
  case inr.inr.inr.inr.inl =>
    rw [h] at h'
    cases h'
    exact ⟨top, below, t, hstack, hstate, hlook, hshift⟩
  all_goals rw [h] at h'; cases h'

theorem todo_reduce {r : Nat} (h : A.todo c = .reduce r) :
    ∃ top below, c.stack = top :: below ∧ top.state ≠ A.final ∧ A.reduce top.state = some r := by
  obtain ⟨h', -⟩ | h' | h' | ⟨top, below, hstack, hfinal, ⟨h', -⟩ | ⟨t, s, h', -⟩ | h' | ⟨r', hreduce, h'⟩⟩ :=
    todo_cases (A := A) c
  case inr.inr.inr.inr.inr.inr =>
    rw [h] at h'
    cases h'
    exact ⟨top, below, hstack, hfinal, hreduce⟩
  all_goals rw [h] at h'; cases h'

theorem todo_underflow (h : A.todo c = .underflow) : c.stack = [] := by
  obtain ⟨-, hstack⟩ | h' | h' | ⟨top, below, -, -, ⟨h', -⟩ | ⟨t, s, h', -⟩ | h' | ⟨r, -, h'⟩⟩ :=
    todo_cases (A := A) c
  case inl => exact hstack
  all_goals rw [h] at h'; cases h'

def Next.Sound (A : Lalr) (acts : Actions ε σ V L) (c : Config σ V L) : Next ε σ V L → Prop
  | .run c' => Moves A acts c c'
  | .stop o env => Stops A acts c o env

theorem step_sound (c : Config σ V L) : (step A acts c).Sound A acts c := by
  unfold step
  split
  case h_1 htodo =>
    split
    case h_1 hlex => exact .lex htodo hlex
    case h_2 hlex => exact .lex htodo hlex
  case h_2 htodo => exact .shift htodo
  case h_3 r htodo =>
    unfold reduceBy
    split
    case h_1 hdrop => exact .underflow htodo hdrop
    case h_2 base rest hdrop =>
      dsimp only
      split
      case h_1 haction => exact .action htodo haction
      case h_2 haction => exact .accept htodo haction
      case h_3 haction => exact .error htodo haction
      case h_4 haction => exact .reduce htodo hdrop haction
  case h_4 htodo => exact .rejected htodo
  case h_5 htodo => exact .exhausted htodo
  case h_6 htodo => exact .final htodo
  case h_7 htodo => exact .empty htodo

theorem step_run (h : step A acts c = .run c') : Moves A acts c c' := by
  have := @step_sound _ _ _ _ A acts c
  rwa [h] at this

theorem step_stop (h : step A acts c = .stop o env) : Stops A acts c o env := by
  have := @step_sound _ _ _ _ A acts c
  rwa [h] at this

theorem run_add {n : Nat} {r : Outcome ε × σ} (h : run A acts n c = some r) (k : Nat) :
    run A acts (n + k) c = some r := by
  induction n generalizing c with
  | zero => cases h
  | succ n ih =>
    rw [Nat.add_right_comm]
    unfold run at h ⊢
    cases hstep : step A acts c with
    | stop o env => rwa [hstep] at h
    | run c' =>
      rw [hstep] at h
      exact ih h

inductive Reaches (A : Lalr) (acts : Actions ε σ V L) : Config σ V L → Config σ V L → Prop
  | refl (c : Config σ V L) : Reaches A acts c c
  | step {c c' c'' : Config σ V L} (hstep : step A acts c = .run c') (h : Reaches A acts c' c'') :
      Reaches A acts c c''

/-- The rule of invariants: what every step of the run keeps and its end implies holds at its end. -/
theorem run_rule {I : Config σ V L → Prop} {Q : Outcome ε → σ → Prop} {n : Nat}
    (hmove : ∀ d d', Reaches A acts c d → I d → Moves A acts d d' → I d')
    (hstop : ∀ d o env, Reaches A acts c d → I d → Stops A acts d o env → Q o env)
    (hc : I c) (h : run A acts n c = some (o, env)) : Q o env := by
  induction n generalizing c with
  | zero => cases h
  | succ n ih =>
    unfold run at h
    cases hstep : step A acts c with
    | stop o' env' =>
      rw [hstep] at h
      cases h
      exact hstop c o env (.refl c) hc (step_stop hstep)
    | run c' =>
      rw [hstep] at h
      exact ih (fun d d' hd => hmove d d' (.step hstep hd)) (fun d o env hd => hstop d o env (.step hstep hd))
        (hmove c c' (.refl c) hc (step_run hstep)) h

/-! A stack that grows from state 0 along the transitions of the tables never runs empty, and the
parser stops. -/

/-- The states that can lie `n` below a state, from those that can lie directly below it. -/
def under (below : Nat → List Nat) : Nat → Nat → List Nat
  | 0, s => [s]
  | n + 1, s => (below s).flatMap (under below n)

/-- The transitions of the tables, and a weight that each reduction takes from: `below s` lists the
states that `s` can be pushed on. -/
structure Ground (A : Lalr) where
  below : Nat → List Nat
  weight : Nat → Nat
  heaviest : Nat
  weight_le : ∀ s, weight s ≤ heaviest
  shift_mem : ∀ s t s', A.shift s t = some s' → s ∈ below s'
  deep : ∀ s ≠ A.final, ∀ r, A.reduce s = some r → ∀ k < A.length r, 0 ∉ under below k s
  goto_mem : ∀ s ≠ A.final, ∀ r, A.reduce s = some r →
    ∀ p ∈ under below (A.length r) s, p ∈ below (A.goto p (A.lhs r))
  lighter : ∀ s ≠ A.final, ∀ r, A.reduce s = some r → ∀ p ∈ under below (A.length r) s,
    weight (A.goto p (A.lhs r)) + 2 ≤ A.length r + weight s

namespace Ground

variable (G : Ground A)

inductive Path : List (Frame V L) → Prop
  | bottom {f : Frame V L} (h : f.state = 0) : Path [f]
  | push {f g : Frame V L} {fs : List (Frame V L)} (h : g.state ∈ G.below f.state) (hpath : Path (g :: fs)) :
      Path (f :: g :: fs)

variable {G}

theorem Path.drop {f : Frame V L} {fs : List (Frame V L)} (hpath : G.Path (f :: fs)) {n : Nat}
    (hdeep : ∀ k < n, 0 ∉ under G.below k f.state) :
    ∃ g gs, (f :: fs).drop n = g :: gs ∧ g.state ∈ under G.below n f.state ∧ G.Path (g :: gs) := by
  induction n generalizing f fs with
  | zero => exact ⟨f, fs, rfl, List.mem_singleton.mpr rfl, hpath⟩
  | succ n ih =>
    cases hpath with
    | bottom h => exact (hdeep 0 (Nat.succ_pos n) (by simp [under, h])).elim
    | @push _ g fs h hpath =>
      have hsub : ∀ k < n, 0 ∉ under G.below k g.state := fun k hk hmem =>
        hdeep (k + 1) (Nat.succ_lt_succ hk) (List.mem_flatMap.mpr ⟨g.state, h, hmem⟩)
      obtain ⟨b, bs, hdrop, hmem, hb⟩ := ih hpath hsub
      exact ⟨b, bs, hdrop, List.mem_flatMap.mpr ⟨g.state, h, hmem⟩, hb⟩

theorem Path.of_moves (hpath : G.Path c.stack) (h : Moves A acts c c') : G.Path c'.stack := by
  cases h with
  | lex => exact hpath
  | shift htodo =>
    obtain ⟨top, below, t, hstack, -, -, hshift⟩ := todo_shift htodo
    rw [hstack] at hpath ⊢
    exact .push (G.shift_mem _ _ _ hshift) hpath
  | reduce htodo hdrop =>
    obtain ⟨top, below, hstack, hfinal, hreduce⟩ := todo_reduce htodo
    rw [hstack] at hpath hdrop
    obtain ⟨g, gs, hdrop', hmem, hg⟩ := hpath.drop (G.deep _ hfinal _ hreduce)
    obtain ⟨rfl, rfl⟩ := List.cons.inj (hdrop.symm.trans hdrop')
    exact .push (G.goto_mem _ hfinal _ hreduce _ hmem) hg

theorem Path.not_underflow (hpath : G.Path c.stack) : ¬ Stops A acts c .underflow env := by
  intro h
  cases h with
  | empty htodo =>
    rw [todo_underflow htodo] at hpath
    cases hpath
  | underflow htodo hdrop =>
    obtain ⟨top, below, hstack, hfinal, hreduce⟩ := todo_reduce htodo
    rw [hstack] at hpath hdrop
    obtain ⟨g, gs, hdrop', -, -⟩ := hpath.drop (G.deep _ hfinal _ hreduce)
    rw [hdrop] at hdrop'
    cases hdrop'

end Ground

/-- How much input is left: reading a token takes from it, up to the end token, and the actions
leave it alone. A state entered by the end token ends the run. -/
structure Input (A : Lalr) (acts : Actions ε σ V L) where
  eof : Nat
  left : σ → Nat
  lex_left : ∀ env t env', acts.lex env = .ok t env' → left env' < left env ∨ t = some eof ∧ left env' ≤ left env
  reduce_left : ∀ r rhs loc env v env', acts.reduce r rhs loc env = .ok (.value v) env' → left env' ≤ left env
  closing : ∀ s s', A.shift s eof = some s' → ∀ (c : Config σ V L) (top : Frame V L) (below : List (Frame V L)),
    c.stack = top :: below → top.state = s' → ∀ c', ¬ Moves A acts c c'

namespace Input

variable (N : Input A acts) (G : Ground A)

/-- The part of the input that is not yet on the stack. -/
def pending (c : Config σ V L) : Nat :=
  2 * N.left c.env +
    match c.lookahead with
    | none => 1
    | some t => if t = N.eof then 0 else 2

def size (c : Config σ V L) : Nat :=
  (G.heaviest + 2) * N.pending c + c.stack.length +
    match c.stack with
    | [] => 0
    | top :: _ => G.weight top.state

variable {N G}

/-- A step makes the configuration smaller, unless it shifts the end token. -/
theorem size_lt (hpath : G.Path c.stack) (h : Moves A acts c c') :
    N.size G c' < N.size G c ∨
      ∃ s top below, A.shift s N.eof = some top.state ∧ c'.stack = top :: below := by
  cases h with
  | @lex t env htodo hlex =>
    left
    obtain ⟨top, below, hstack, -, hlook⟩ := todo_lex htodo
    have hpending : N.pending ⟨c.stack, t, env⟩ + 1 ≤ N.pending c := by
      have hleft := N.lex_left _ _ _ hlex
      unfold pending
      rw [hlook]
      cases t with
      | none =>
        simp only [reduceCtorEq, false_and, or_false] at hleft ⊢
        omega
      | some t =>
        by_cases heof : t = N.eof
        · simp only [heof, if_true]
          omega
        · simp only [Option.some.injEq, heof, if_false, false_and, or_false] at hleft ⊢
          omega
    have := Nat.mul_le_mul_left (G.heaviest + 2) hpending
    unfold size
    simp only [hstack] at this ⊢
    rw [Nat.mul_add] at this
    omega
  | @shift s htodo =>
    obtain ⟨top, below, t, hstack, -, hlook, hshift⟩ := todo_shift htodo
    by_cases heof : t = N.eof
    · right
      exact ⟨top.state, ⟨s, acts.tokenValue c.env, acts.tokenLoc c.env⟩, c.stack, by rw [← heof]; exact hshift, rfl⟩
    · left
      have hpending : N.pending ⟨⟨s, acts.tokenValue c.env, acts.tokenLoc c.env⟩ :: c.stack, none, c.env⟩ + 1 ≤
          N.pending c := by
        unfold pending
        rw [hlook]
        simp only [heof, if_false]
        omega
      have hmul := Nat.mul_le_mul_left (G.heaviest + 2) hpending
      have hweight := G.weight_le s
      unfold size
      simp only [hstack, List.length_cons] at hmul ⊢
      rw [Nat.mul_add] at hmul
      omega
  | @reduce r base rest v loc env htodo hdrop haction =>
    left
    obtain ⟨top, below, hstack, hfinal, hreduce⟩ := todo_reduce htodo
    have hleft := N.reduce_left _ _ _ _ _ _ haction
    have hpending : N.pending ⟨⟨A.goto base.state (A.lhs r), v, loc⟩ :: base :: rest, c.lookahead, env⟩ ≤
        N.pending c := by
      unfold pending
      dsimp only
      omega
    have hmul := Nat.mul_le_mul_left (G.heaviest + 2) hpending
    rw [hstack] at hpath
    obtain ⟨g, gs, hdrop', hmem, -⟩ := hpath.drop (G.deep _ hfinal _ hreduce)
    rw [hstack] at hdrop
    obtain ⟨rfl, rfl⟩ := List.cons.inj (hdrop.symm.trans hdrop')
    have hlight := G.lighter _ hfinal _ hreduce _ hmem
    have hlength := congrArg List.length hdrop
    simp only [List.length_drop, List.length_cons] at hlength
    unfold size
    simp only [hstack, List.length_cons] at hmul ⊢
    omega

/-- The parser stops, within a number of steps that is linear in the input. -/
theorem run_isSome (hpath : G.Path c.stack) : (run A acts (N.size G c + 2) c).isSome := by
  induction hn : N.size G c using Nat.strong_induction_on generalizing c with
  | _ n ih =>
    unfold run
    cases hstep : step A acts c with
    | stop o env => rfl
    | run c' =>
      have hmove := step_run hstep
      dsimp only
      obtain hlt | ⟨s, top, below, hshift, hstack⟩ := size_lt (N := N) hpath hmove
      · rw [hn] at hlt
        have hsome := ih _ hlt (hpath.of_moves hmove) rfl
        obtain ⟨r, hr⟩ := Option.isSome_iff_exists.mp hsome
        obtain ⟨k, hk⟩ := Nat.exists_eq_add_of_le hlt
        rw [show n + 1 = N.size G c' + 2 + k by omega, run_add hr k]
        rfl
      · unfold run
        cases hstep' : step A acts c' with
        | stop o env => rfl
        | run c'' => exact (N.closing _ _ hshift c' top below hstack rfl c'' (step_run hstep')).elim

end Input

end Lalr

end LevelPgServer
