import Mathlib.Tactic

/-! Computations that may not return. -/

namespace LevelPgServer

/-- From a state it returns or throws, in another state, or it runs for ever. -/
structure Call (ε σ α : Type) where
  run : σ → Option (Except ε α × σ)

namespace Call

variable {ε σ α β : Type}

instance : Monad (Call ε σ) where
  pure a := ⟨fun s => some (.ok a, s)⟩
  bind x f := ⟨fun s =>
    match x.run s with
    | none => none
    | some (.ok a, s') => (f a).run s'
    | some (.error e, s') => some (.error e, s')⟩

instance : MonadStateOf σ (Call ε σ) where
  get := ⟨fun s => some (.ok s, s)⟩
  set s := ⟨fun _ => some (.ok (), s)⟩
  modifyGet f := ⟨fun s => some (.ok (f s).1, (f s).2)⟩

instance : MonadExceptOf ε (Call ε σ) where
  throw e := ⟨fun s => some (.error e, s)⟩
  tryCatch x h := ⟨fun s =>
    match x.run s with
    | some (.error e, s') => (h e).run s'
    | r => r⟩

/-- The fuel is used up. -/
def diverge : Call ε σ α := ⟨fun _ => none⟩

theorem bind_run (x : Call ε σ α) (f : α → Call ε σ β) (s : σ) :
    (x >>= f).run s =
      match x.run s with
      | none => none
      | some (.ok a, s') => (f a).run s'
      | some (.error e, s') => some (.error e, s') := rfl

theorem tryCatch_run (x : Call ε σ α) (h : ε → Call ε σ α) (s : σ) :
    (MonadExceptOf.tryCatch x h).run s =
      match x.run s with
      | some (.error e, s') => (h e).run s'
      | r => r := rfl

/-- With enough fuel `x` comes to `r`. -/
def Comes (x : Nat → Call ε σ α) (s : σ) (r : Except ε α × σ) : Prop := ∃ n, ∀ m ≥ n, (x m).run s = some r

theorem Comes.unique {x : Nat → Call ε σ α} {s : σ} {r r' : Except ε α × σ} (h : Comes x s r) (h' : Comes x s r') : r = r' := by
  obtain ⟨n, hn⟩ := h
  obtain ⟨n', hn'⟩ := h'
  have heq := (hn (max n n') (le_max_left n n')).symm.trans (hn' (max n n') (le_max_right n n'))
  exact Option.some.inj heq

/-- With enough fuel `x` returns with `Q`, or throws with `R`. -/
def Returns (x : Nat → Call ε σ α) (s : σ) (Q : α → σ → Prop) (R : ε → σ → Prop) : Prop :=
  ∃ r s', Comes x s (r, s') ∧
    match r with
    | .ok a => Q a s'
    | .error e => R e s'

namespace Returns

variable {x : Nat → Call ε σ α} {s : σ} {Q Q' : α → σ → Prop} {R R' : ε → σ → Prop}

theorem conseq (h : Returns x s Q R) (hq : ∀ a s', Q a s' → Q' a s') (hr : ∀ e s', R e s' → R' e s') :
    Returns x s Q' R' := by
  obtain ⟨r, s', hres, hpost⟩ := h
  refine ⟨r, s', hres, ?_⟩
  cases r with
  | ok a => exact hq a s' hpost
  | error e => exact hr e s' hpost

theorem of_ok (a : α) (s' : σ) (hx : ∀ n, (x n).run s = some (.ok a, s')) (h : Q a s') : Returns x s Q R :=
  ⟨.ok a, s', ⟨0, fun n _ => hx n⟩, h⟩

theorem of_error (e : ε) (s' : σ) (hx : ∀ n, (x n).run s = some (.error e, s')) (h : R e s') : Returns x s Q R :=
  ⟨.error e, s', ⟨0, fun n _ => hx n⟩, h⟩

theorem shift (h : Returns x s Q R) (d : Nat) : Returns (fun n => x (n + d)) s Q R := by
  obtain ⟨r, s', ⟨n, hn⟩, hpost⟩ := h
  exact ⟨r, s', ⟨n, fun m hm => hn (m + d) (by omega)⟩, hpost⟩

theorem succ {y : Nat → Call ε σ α} (h : Returns x s Q R) (hy : ∀ n, (y (n + 1)).run s = (x n).run s) : Returns y s Q R := by
  obtain ⟨r, s', ⟨n, hn⟩, hpost⟩ := h
  refine ⟨r, s', ⟨n + 1, fun m hm => ?_⟩, hpost⟩
  obtain ⟨m, rfl⟩ : ∃ k, m = k + 1 := ⟨m - 1, by omega⟩
  rw [hy]
  exact hn m (by omega)

theorem bind {f : Nat → α → Call ε σ β} {S : β → σ → Prop} (hx : Returns x s Q R)
    (hf : ∀ a s', Q a s' → Returns (fun n => f n a) s' S R) : Returns (fun n => x n >>= f n) s S R := by
  obtain ⟨r, s', ⟨n, hn⟩, hpost⟩ := hx
  cases r with
  | ok a =>
    obtain ⟨r', s'', ⟨k, hk⟩, hpost'⟩ := hf a s' hpost
    refine ⟨r', s'', ⟨max n k, fun m hm => ?_⟩, hpost'⟩
    rw [bind_run, hn m (le_trans (le_max_left n k) hm)]
    exact hk m (le_trans (le_max_right n k) hm)
  | error e =>
    refine ⟨.error e, s', ⟨n, fun m hm => ?_⟩, hpost⟩
    rw [bind_run, hn m hm]

theorem tryCatch {h : Nat → ε → Call ε σ α} (hx : Returns x s Q R)
    (hh : ∀ e s', R e s' → Returns (fun n => h n e) s' Q R') : Returns (fun n => MonadExceptOf.tryCatch (x n) (h n)) s Q R' := by
  obtain ⟨r, s', ⟨n, hn⟩, hpost⟩ := hx
  cases r with
  | ok a =>
    refine ⟨.ok a, s', ⟨n, fun m hm => ?_⟩, hpost⟩
    rw [tryCatch_run, hn m hm]
  | error e =>
    obtain ⟨r', s'', ⟨k, hk⟩, hpost'⟩ := hh e s' hpost
    refine ⟨r', s'', ⟨max n k, fun m hm => ?_⟩, hpost'⟩
    rw [tryCatch_run, hn m (le_trans (le_max_left n k) hm)]
    exact hk m (le_trans (le_max_right n k) hm)

end Returns

end Call

end LevelPgServer
