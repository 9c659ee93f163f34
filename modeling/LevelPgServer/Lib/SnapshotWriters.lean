import Mathlib.Logic.Relation
import Mathlib.Tactic

namespace LevelPgServer.SnapshotWriters

variable {δ ω : Type}

/-- The operations that a statement may collect which was prepared at one state of the store and
reads another. -/
abbrev Writer (δ ω : Type) := δ → δ → ω → Prop

inductive Phase (δ ω : Type)
  | idle
  | prepared (built : δ)
  | reading (built snapshot : δ)
  | done (built snapshot found : δ) (ops : ω)

/-- All states of the store that a statement before its commit has seen satisfy `v`. -/
def Phase.Open (v : δ → Prop) : Phase δ ω → Prop
  | idle => True
  | prepared x => v x
  | reading x y => v x ∧ v y
  | done _ _ _ _ => False

theorem Phase.Open.imp {v w : δ → Prop} (h : ∀ x, v x → w x) {p : Phase δ ω} (hp : p.Open v) : p.Open w := by
  cases p with
  | idle => trivial
  | prepared x => exact h x hp
  | reading x y => exact ⟨h x hp.1, h y hp.2⟩
  | done => exact hp

/-- Two statements that share a store. -/
structure State (δ ω : Type) where
  left : Phase δ ω
  right : Phase δ ω
  store : δ

variable (apply : ω → δ → δ) (A B : Writer δ ω)

/-- A step of one statement while the store is `s`: it is prepared, it begins, or it commits. -/
inductive Advance (W : Writer δ ω) (s : δ) : Phase δ ω → Phase δ ω → δ → Prop
  | prepare : Advance W s .idle (.prepared s) s
  | start {x : δ} : Advance W s (.prepared x) (.reading x s) s
  | commit {x y : δ} {ops : ω} (h : W x y ops) : Advance W s (.reading x y) (.done x y s ops) (apply ops s)

inductive Step : State δ ω → State δ ω → Prop
  | left {l l' r : Phase δ ω} {s s' : δ} (h : Advance apply A s l l' s') : Step ⟨l, r, s⟩ ⟨l', r, s'⟩
  | right {l r r' : Phase δ ω} {s s' : δ} (h : Advance apply B s r r' s') : Step ⟨l, r, s⟩ ⟨l, r', s'⟩

/-- What has happened to the store since it was `s`: the statement that commits first has seen
nothing else, and the other one what was there before or after that commit. -/
inductive Since (s : δ) : State δ ω → Prop
  | none {l r : Phase δ ω} (hl : l.Open (· = s)) (hr : r.Open (· = s)) : Since s ⟨l, r, s⟩
  | left {a : ω} {r : Phase δ ω} (ha : A s s a) (hr : r.Open (fun x => x = s ∨ x = apply a s)) :
      Since s ⟨.done s s s a, r, apply a s⟩
  | right {b : ω} {l : Phase δ ω} (hb : B s s b) (hl : l.Open (fun x => x = s ∨ x = apply b s)) :
      Since s ⟨l, .done s s s b, apply b s⟩
  | leftFirst {a b : ω} {x y : δ} (ha : A s s a) (hb : B x y b) (hx : x = s ∨ x = apply a s)
      (hy : y = s ∨ y = apply a s) : Since s ⟨.done s s s a, .done x y (apply a s) b, apply b (apply a s)⟩
  | rightFirst {a b : ω} {x y : δ} (hb : B s s b) (ha : A x y a) (hx : x = s ∨ x = apply b s)
      (hy : y = s ∨ y = apply b s) : Since s ⟨.done x y (apply b s) a, .done s s s b, apply a (apply b s)⟩

variable {apply A B}

theorem Advance.open_or {W : Writer δ ω} {s s' : δ} {p p' : Phase δ ω} (h : Advance apply W s p p' s') {v : δ → Prop}
    (hp : p.Open v) (hs : v s) :
    (s' = s ∧ p'.Open v) ∨ ∃ x y ops, W x y ops ∧ v x ∧ v y ∧ p' = .done x y s ops ∧ s' = apply ops s := by
  cases h with
  | prepare => exact .inl ⟨rfl, hs⟩
  | start => exact .inl ⟨rfl, hp, hs⟩
  | commit h => exact .inr ⟨_, _, _, h, hp.1, hp.2, rfl, rfl⟩

theorem not_advance_done {W : Writer δ ω} {s s' x y z : δ} {ops : ω} {p' : Phase δ ω} :
    ¬ Advance apply W s (.done x y z ops) p' s' := by
  intro h
  cases h

theorem Since.step {s : δ} {σ σ' : State δ ω} (h : Since apply A B s σ) (hstep : Step apply A B σ σ') :
    Since apply A B s σ' := by
  cases h with
  | none hl hr =>
    cases hstep with
    | left ha =>
      obtain ⟨rfl, hl'⟩ | ⟨x, y, a, haw, rfl, rfl, rfl, rfl⟩ := ha.open_or hl rfl
      · exact .none hl' hr
      · exact .left haw (hr.imp fun _ => .inl)
    | right hb =>
      obtain ⟨rfl, hr'⟩ | ⟨x, y, b, hbw, rfl, rfl, rfl, rfl⟩ := hb.open_or hr rfl
      · exact .none hl hr'
      · exact .right hbw (hl.imp fun _ => .inl)
  | left ha hr =>
    cases hstep with
    | left h => exact absurd h not_advance_done
    | right hb =>
      obtain ⟨rfl, hr'⟩ | ⟨x, y, b, hbw, hx, hy, rfl, rfl⟩ := hb.open_or hr (.inr rfl)
      · exact .left ha hr'
      · exact .leftFirst ha hbw hx hy
  | right hb hl =>
    cases hstep with
    | left ha =>
      obtain ⟨rfl, hl'⟩ | ⟨x, y, a, haw, hx, hy, rfl, rfl⟩ := ha.open_or hl (.inr rfl)
      · exact .right hb hl'
      · exact .rightFirst hb haw hx hy
    | right h => exact absurd h not_advance_done
  | leftFirst =>
    cases hstep with
    | left h => exact absurd h not_advance_done
    | right h => exact absurd h not_advance_done
  | rightFirst =>
    cases hstep with
    | left h => exact absurd h not_advance_done
    | right h => exact absurd h not_advance_done

theorem Since.run {s : δ} {σ : State δ ω} (h : Relation.ReflTransGen (Step apply A B) ⟨.idle, .idle, s⟩ σ) :
    Since apply A B s σ := by
  induction h with
  | refl => exact .none trivial trivial
  | tail _ hstep ih => exact ih.step hstep

end LevelPgServer.SnapshotWriters
