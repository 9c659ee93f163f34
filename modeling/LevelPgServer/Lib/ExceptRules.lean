import Mathlib.Tactic

namespace LevelPgServer.ExceptRules

variable {ε α β : Type}

@[simp] theorem ok_bind (a : α) (f : α → Except ε β) : (Except.ok a >>= f) = f a := rfl

@[simp] theorem error_bind (e : ε) (f : α → Except ε β) : ((Except.error e : Except ε α) >>= f) = .error e := rfl

@[simp] theorem pure_eq_ok (a : α) : (pure a : Except ε α) = .ok a := rfl

theorem bind_eq_ok {x : Except ε α} {f : α → Except ε β} {b : β} :
    (x >>= f) = .ok b ↔ ∃ a, x = .ok a ∧ f a = .ok b := by
  cases x with
  | error e => simp
  | ok a => simp

theorem bind_eq_error {x : Except ε α} {f : α → Except ε β} {e : ε} :
    (x >>= f) = .error e ↔ x = .error e ∨ ∃ a, x = .ok a ∧ f a = .error e := by
  cases x with
  | error e' => simp
  | ok a => simp

/-- Only errors with `P` come of `x`. -/
def Errors (P : ε → Prop) (x : Except ε α) : Prop := ∀ e, x = .error e → P e

namespace Errors

variable {P : ε → Prop}

theorem of_ok (a : α) : Errors P (.ok a : Except ε α) := fun _ h => by cases h

theorem of_error {e : ε} (h : P e) : Errors P (.error e : Except ε α) := fun _ he => by
  cases he
  exact h

theorem bind {x : Except ε α} {f : α → Except ε β} (hx : Errors P x) (hf : ∀ a, Errors P (f a)) : Errors P (x >>= f) := by
  intro e h
  obtain hx' | ⟨a, -, ha⟩ := bind_eq_error.mp h
  · exact hx e hx'
  · exact hf a e ha

theorem mapM {f : α → Except ε β} (hf : ∀ a, Errors P (f a)) (l : List α) : Errors P (l.mapM f) := by
  induction l with
  | nil => exact of_ok []
  | cons a l ih =>
    rw [List.mapM_cons]
    exact (hf a).bind fun b => ih.bind fun bs => of_ok (b :: bs)

theorem mono {Q : ε → Prop} {x : Except ε α} (h : Errors P x) (hpq : ∀ e, P e → Q e) : Errors Q x := fun e he => hpq e (h e he)

end Errors

theorem mapM_eq_ok {f : α → Except ε β} {g : α → β} {l : List α} (h : ∀ a ∈ l, f a = .ok (g a)) :
    l.mapM f = .ok (l.map g) := by
  induction l with
  | nil => rfl
  | cons a l ih =>
    rw [List.mapM_cons, h a (by simp), ok_bind, ih (fun b hb => h b (by simp [hb]))]
    rfl

/-- A `mapM` that succeeds has succeeded at every element. -/
theorem forall₂_of_mapM_ok {f : α → Except ε β} {l : List α} {bs : List β} (h : l.mapM f = .ok bs) :
    List.Forall₂ (fun a b => f a = .ok b) l bs := by
  induction l generalizing bs with
  | nil =>
    cases h
    exact .nil
  | cons a l ih =>
    rw [List.mapM_cons] at h
    obtain ⟨b, hb, h⟩ := bind_eq_ok.mp h
    obtain ⟨bs', hbs, h⟩ := bind_eq_ok.mp h
    cases h
    exact .cons hb (ih hbs)

/-- A `mapM` that fails has failed at an element. -/
theorem mem_of_mapM_error {f : α → Except ε β} {l : List α} {e : ε} (h : l.mapM f = .error e) :
    ∃ a ∈ l, f a = .error e := by
  induction l with
  | nil => cases h
  | cons a l ih =>
    rw [List.mapM_cons] at h
    obtain h | ⟨b, -, h⟩ := bind_eq_error.mp h
    · exact ⟨a, by simp, h⟩
    · obtain h | ⟨bs, -, h⟩ := bind_eq_error.mp h
      · obtain ⟨c, hc, hf⟩ := ih h
        exact ⟨c, by simp [hc], hf⟩
      · cases h

end LevelPgServer.ExceptRules
