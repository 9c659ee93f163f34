import Mathlib.Tactic

/-! Rules of pre- and postconditions for computations whose exceptions keep the state. -/

namespace LevelPgServer.StateRules

variable {ε σ α β : Type}

theorem get_run (s : σ) : (get : EStateM ε σ σ) s = .ok s s := rfl

theorem set_run (s s' : σ) : (set s' : EStateM ε σ PUnit) s = .ok ⟨⟩ s' := rfl

theorem modify_run (f : σ → σ) (s : σ) : (modify f : EStateM ε σ PUnit) s = .ok ⟨⟩ (f s) := rfl

/-- Started where `P` holds, `m` ends with `Q`, or throws with `R`. -/
def Triple (P : σ → Prop) (m : EStateM ε σ α) (Q : α → σ → Prop) (R : ε → σ → Prop) : Prop :=
  ∀ s, P s →
    match m s with
    | .ok a s' => Q a s'
    | .error e s' => R e s'

namespace Triple

variable {P P' : σ → Prop} {Q Q' : α → σ → Prop} {R R' : ε → σ → Prop}

theorem conseq {m : EStateM ε σ α} (h : Triple P m Q R) (hp : ∀ s, P' s → P s) (hq : ∀ a s, Q a s → Q' a s)
    (hr : ∀ e s, R e s → R' e s) : Triple P' m Q' R' := by
  intro s hs
  have hrun := h s (hp s hs)
  cases hm : m s with
  | ok a s' =>
    rw [hm] at hrun
    exact hq a s' hrun
  | error e s' =>
    rw [hm] at hrun
    exact hr e s' hrun

theorem of_pure (a : α) (h : ∀ s, P s → Q a s) : Triple P (pure a : EStateM ε σ α) Q R := h

theorem of_throw (e : ε) (h : ∀ s, P s → R e s) : Triple P (throw e : EStateM ε σ α) Q R := h

theorem of_modify {Q : Unit → σ → Prop} (f : σ → σ) (h : ∀ s, P s → Q () (f s)) :
    Triple P (modify f : EStateM ε σ Unit) Q R := h

theorem of_get {Q : σ → σ → Prop} (h : ∀ s, P s → Q s s) : Triple P (get : EStateM ε σ σ) Q R := h

theorem bind {S : β → σ → Prop} {m : EStateM ε σ α} {f : α → EStateM ε σ β} (hm : Triple P m Q R)
    (hf : ∀ a, Triple (Q a) (f a) S R) : Triple P (m >>= f) S R := by
  intro s hs
  have hrun := hm s hs
  cases h : m s with
  | ok a s' =>
    rw [h] at hrun
    have hnext := hf a s' hrun
    simp only [Bind.bind, EStateM.bind, h]
    exact hnext
  | error e s' =>
    rw [h] at hrun
    simp only [Bind.bind, EStateM.bind, h]
    exact hrun

theorem ok {m : EStateM ε σ α} (h : Triple P m Q R) {s s' : σ} {a : α} (hs : P s) (hm : m s = .ok a s') : Q a s' := by
  have := h s hs
  rwa [hm] at this

theorem error {m : EStateM ε σ α} (h : Triple P m Q R) {s s' : σ} {e : ε} (hs : P s) (hm : m s = .error e s') :
    R e s' := by
  have := h s hs
  rwa [hm] at this

end Triple

/-- Two runs of `m` from related states end in the same way, in related states again. -/
def Lockstep (R : σ → σ → Prop) (m : EStateM ε σ α) (S : σ → σ → Prop) (E : σ → σ → Prop) : Prop :=
  ∀ s t, R s t →
    match m s, m t with
    | .ok a s', .ok b t' => a = b ∧ S s' t'
    | .error e s', .error f t' => e = f ∧ E s' t'
    | _, _ => False

namespace Lockstep

variable {R R' S S' E E' : σ → σ → Prop}

theorem conseq {m : EStateM ε σ α} (h : Lockstep R m S E) (hr : ∀ s t, R' s t → R s t) (hs : ∀ s t, S s t → S' s t)
    (he : ∀ s t, E s t → E' s t) : Lockstep R' m S' E' := by
  intro s t hst
  have hrun := h s t (hr s t hst)
  cases h1 : m s <;> cases h2 : m t <;> rw [h1, h2] at hrun
  · exact ⟨hrun.1, hs _ _ hrun.2⟩
  · exact hrun
  · exact hrun
  · exact ⟨hrun.1, he _ _ hrun.2⟩

theorem of_pure (a : α) (h : ∀ s t, R s t → S s t) : Lockstep R (pure a : EStateM ε σ α) S E :=
  fun s t hst => ⟨rfl, h s t hst⟩

theorem of_throw (e : ε) (h : ∀ s t, R s t → E s t) : Lockstep R (throw e : EStateM ε σ α) S E :=
  fun s t hst => ⟨rfl, h s t hst⟩

theorem of_modify (f : σ → σ) (h : ∀ s t, R s t → S (f s) (f t)) : Lockstep R (modify f : EStateM ε σ Unit) S E :=
  fun s t hst => ⟨rfl, h s t hst⟩

theorem bind {m : EStateM ε σ α} {f : α → EStateM ε σ β} {T : σ → σ → Prop} (hm : Lockstep R m S E)
    (hf : ∀ a, Lockstep S (f a) T E) : Lockstep R (m >>= f) T E := by
  intro s t hst
  have hrun := hm s t hst
  cases h1 : m s with
  | ok a s' =>
    cases h2 : m t with
    | ok b t' =>
      rw [h1, h2] at hrun
      obtain ⟨rfl, hs⟩ := hrun
      simp only [Bind.bind, EStateM.bind, h1, h2]
      exact hf a s' t' hs
    | error f t' =>
      rw [h1, h2] at hrun
      exact hrun.elim
  | error e s' =>
    cases h2 : m t with
    | ok b t' =>
      rw [h1, h2] at hrun
      exact hrun.elim
    | error f t' =>
      rw [h1, h2] at hrun
      simp only [Bind.bind, EStateM.bind, h1, h2]
      exact hrun

end Lockstep

end LevelPgServer.StateRules
