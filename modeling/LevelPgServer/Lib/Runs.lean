import Mathlib.Tactic

/-! What has happened in a run of a step function. -/

namespace LevelPgServer.Runs

variable {σ ε : Type} (step : σ → ε → σ)

/-- `P` holds at some event, and `N` at no later one. -/
def Since (P N : σ → ε → Prop) (s : σ) (es : List ε) : Prop :=
  ∃ before e later, es = before ++ e :: later ∧ P (before.foldl step s) e ∧
    ∀ first c rest, later = first ++ c :: rest → ¬ N ((before ++ e :: first).foldl step s) c

/-- `P` holds at some event. -/
def Occurs (P : σ → ε → Prop) (s : σ) (es : List ε) : Prop := ∃ before e later, es = before ++ e :: later ∧ P (before.foldl step s) e

/-- `P` holds at every event, of the events before it and the event itself. -/
def AtEach (P : List ε → ε → Prop) (es : List ε) : Prop := ∀ before e later, es = before ++ e :: later → P before e

variable {step} {P N : σ → ε → Prop} {s : σ} {es : List ε} {e : ε}

theorem not_since_nil : ¬ Since step P N s [] := by
  rintro ⟨before, e, later, hsplit, -⟩
  simp at hsplit

theorem since_append :
    Since step P N s (es ++ [e]) ↔ P (es.foldl step s) e ∨ Since step P N s es ∧ ¬ N (es.foldl step s) e := by
  constructor
  · rintro ⟨before, c, later, hsplit, hp, hnone⟩
    obtain rfl | ⟨later, x, rfl⟩ := List.eq_nil_or_concat' later
    · obtain ⟨rfl, hce⟩ := List.append_inj' hsplit rfl
      cases hce
      exact .inl hp
    · rw [← List.cons_append, ← List.append_assoc] at hsplit
      obtain ⟨rfl, hex⟩ := List.append_inj' hsplit rfl
      cases hex
      exact .inr ⟨⟨before, c, later, rfl, hp, fun first d rest h => hnone first d (rest ++ [e]) (by simp [h])⟩,
        hnone later e [] rfl⟩
  · rintro (hp | ⟨⟨before, c, later, rfl, hp, hnone⟩, he⟩)
    · exact ⟨es, e, [], rfl, hp, fun first c rest hnil => by simp at hnil⟩
    · refine ⟨before, c, later ++ [e], by simp, hp, fun first d rest hsplit => ?_⟩
      obtain rfl | ⟨rest, x, rfl⟩ := List.eq_nil_or_concat' rest
      · obtain ⟨rfl, hde⟩ := List.append_inj' hsplit rfl
        cases hde
        exact he
      · rw [← List.cons_append, ← List.append_assoc] at hsplit
        obtain ⟨rfl, -⟩ := List.append_inj' hsplit rfl
        exact hnone first d rest rfl

theorem occurs_iff_since : Occurs step P s es ↔ Since step P (fun _ _ => False) s es := by
  constructor
  · rintro ⟨before, e, later, hsplit, hp⟩
    exact ⟨before, e, later, hsplit, hp, fun _ _ _ _ => not_false⟩
  · rintro ⟨before, e, later, hsplit, hp, -⟩
    exact ⟨before, e, later, hsplit, hp⟩

theorem not_occurs_nil : ¬ Occurs step P s [] := fun h => not_since_nil (occurs_iff_since.mp h)

theorem occurs_append : Occurs step P s (es ++ [e]) ↔ Occurs step P s es ∨ P (es.foldl step s) e := by
  rw [occurs_iff_since, since_append, ← occurs_iff_since, and_iff_left not_false, or_comm]

/-- What has happened since has happened after the last `N`. -/
theorem Since.occurs_after {before later : List ε} (h : Since step P N s (before ++ e :: later))
    (hn : N (before.foldl step s) e) :
    P (before.foldl step s) e ∨ Occurs step P ((before ++ [e]).foldl step s) later := by
  induction later using List.reverseRecOn with
  | nil =>
    obtain hp | ⟨-, hnot⟩ := since_append.mp h
    · exact .inl hp
    · exact absurd hn hnot
  | append_singleton later c ih =>
    rw [← List.cons_append, ← List.append_assoc] at h
    rw [occurs_append, ← List.foldl_append, List.append_assoc, List.singleton_append, ← or_assoc]
    obtain hp | ⟨hsince, -⟩ := since_append.mp h
    · exact .inr hp
    · exact .inl (ih hsince)

theorem Occurs.since {before later : List ε} (h : Occurs step P ((before ++ [e]).foldl step s) later)
    (hn : ∀ first c rest, later = first ++ c :: rest → ¬ N ((before ++ e :: first).foldl step s) c) :
    Since step P N s (before ++ e :: later) := by
  obtain ⟨first, c, rest, rfl, hp⟩ := h
  refine ⟨before ++ e :: first, c, rest, by simp, ?_, fun first' d rest' hsplit => ?_⟩
  · rwa [← List.foldl_append, List.append_assoc, List.singleton_append] at hp
  · have := hn (first ++ c :: first') d rest' (by simp [hsplit])
    rwa [List.append_assoc, List.cons_append]

variable {Q : List ε → ε → Prop}

theorem atEach_append : AtEach Q (es ++ [e]) ↔ AtEach Q es ∧ Q es e := by
  constructor
  · intro h
    exact ⟨fun before c later hsplit => h before c (later ++ [e]) (by simp [hsplit]), h es e [] rfl⟩
  · rintro ⟨h, he⟩ before c later hsplit
    obtain rfl | ⟨later, x, rfl⟩ := List.eq_nil_or_concat' later
    · obtain ⟨rfl, hce⟩ := List.append_inj' hsplit rfl
      cases hce
      exact he
    · rw [← List.cons_append, ← List.append_assoc] at hsplit
      obtain ⟨rfl, -⟩ := List.append_inj' hsplit rfl
      exact h before c later rfl

theorem atEach_nil : AtEach Q [] := fun before c later hsplit => by simp at hsplit

theorem atEach_cons : AtEach Q (e :: es) ↔ Q [] e ∧ AtEach (fun before => Q (e :: before)) es := by
  constructor
  · intro h
    exact ⟨h [] e es rfl, fun before c later hsplit => h (e :: before) c later (by simp [hsplit])⟩
  · rintro ⟨he, h⟩ before c later hsplit
    obtain _ | ⟨x, before⟩ := before
    · cases hsplit
      exact he
    · cases hsplit
      exact h before c later rfl

theorem AtEach.left {es fs : List ε} (h : AtEach Q (es ++ fs)) : AtEach Q es :=
  fun before c later hsplit => h before c (later ++ fs) (by simp [hsplit])

end LevelPgServer.Runs
