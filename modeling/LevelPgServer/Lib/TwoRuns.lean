import Mathlib.Tactic

/-! Two runs of one fallible step, side by side. -/

namespace LevelPgServer.TwoRuns

variable {α β ε σ : Type} (f : σ → α → Except ε σ) (g h : β → α)

/-- The condition `P` before every step of the run of `f`, as far as the run succeeds. -/
def Along (P : σ → β → Prop) : σ → List β → Prop
  | _, [] => True
  | s, b :: bs => P s b ∧ ∀ s', f s (g b) = .ok s' → Along P s' bs

def Agree (s : σ) (bs : List β) : Prop :=
  ((bs.map g).foldlM f s).toOption = ((bs.map h).foldlM f s).toOption

variable {f g h} {P : σ → β → Prop} {Inv : σ → Prop}

theorem agree_cons {s : σ} {b : β} {bs : List β} (hstep : (f s (g b)).toOption = (f s (h b)).toOption) :
    Agree f g h s (b :: bs) ↔ ∀ s', f s (g b) = .ok s' → Agree f g h s' bs := by
  rw [Agree, List.map_cons, List.map_cons, List.foldlM_cons, List.foldlM_cons]
  cases hg : f s (g b) with
  | error e =>
    cases hh : f s (h b) with
    | error e' =>
      refine ⟨fun _ s' hs => ?_, fun _ => rfl⟩
      cases hs
    | ok s' =>
      rw [hg, hh] at hstep
      cases hstep
  | ok s' =>
    cases hh : f s (h b) with
    | error e' =>
      rw [hg, hh] at hstep
      cases hstep
    | ok s'' =>
      rw [hg, hh] at hstep
      cases hstep
      refine ⟨fun ha t ht => ?_, fun ha => ha s' rfl⟩
      cases ht
      exact ha

/-- The runs agree on every beginning exactly when every step of the first meets the condition under which
a single step agrees. -/
theorem agree_take_iff (hstep : ∀ s b, Inv s → ((f s (g b)).toOption = (f s (h b)).toOption ↔ P s b))
    (hinv : ∀ s a s', Inv s → f s a = .ok s' → Inv s') {s : σ} (hs : Inv s) (bs : List β) :
    (∀ n, Agree f g h s (bs.take n)) ↔ Along f g P s bs := by
  induction bs generalizing s with
  | nil =>
    refine ⟨fun _ => trivial, fun _ n => ?_⟩
    rw [List.take_nil]
    rfl
  | cons b bs ih =>
    have hone : Agree f g h s ((b :: bs).take 1) ↔ P s b := by
      rw [← hstep s b hs, Agree, List.take_succ_cons, List.take_zero, List.map_cons, List.map_cons, List.map_nil,
        List.map_nil, List.foldlM_cons, List.foldlM_cons]
      cases f s (g b) <;> cases f s (h b) <;> rfl
    constructor
    · intro ha
      have hb := hone.mp (ha 1)
      refine ⟨hb, fun s' hs' => (ih (hinv s _ s' hs hs')).mp fun n => ?_⟩
      exact (agree_cons ((hstep s b hs).mpr hb)).mp (ha (n + 1)) s' hs'
    · rintro ⟨hb, ha⟩ n
      cases n with
      | zero => rfl
      | succ n =>
        refine (agree_cons ((hstep s b hs).mpr hb)).mpr fun s' hs' => ?_
        exact (ih (hinv s _ s' hs hs')).mpr (ha s' hs') n

theorem toOption_bind_inj {γ δ : Type} {c : γ → δ} (hc : Function.Injective c) (x y : Except ε γ) :
    (x >>= fun a => pure (c a)).toOption = (y >>= fun a => pure (c a)).toOption ↔ x.toOption = y.toOption := by
  cases x with
  | error e => cases y <;> simp [bind, Except.bind, pure, Except.pure, Except.toOption]
  | ok a => cases y <;> simp [bind, Except.bind, pure, Except.pure, Except.toOption, hc.eq_iff]

theorem bind_pure_ok {γ δ : Type} {c : γ → δ} {x : Except ε γ} {d : δ} (hx : x >>= (fun a => pure (c a)) = .ok d) :
    ∃ a, x = .ok a ∧ d = c a := by
  cases x with
  | error e => cases hx
  | ok a => exact ⟨a, rfl, (Except.ok.inj hx).symm⟩

end LevelPgServer.TwoRuns
