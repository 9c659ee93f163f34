import Mathlib.Tactic
import Mathlib.Data.List.Lex
import Mathlib.Data.Prod.Lex
import Mathlib.Order.WithBot

namespace LevelPgServer.ThreeWay

variable {α β : Type} [LinearOrder α] [LinearOrder β]

def order (a b : α) : Ordering := if a < b then .lt else if b < a then .gt else .eq

theorem order_of_lt {a b : α} (h : a < b) : order a b = .lt := by simp [order, h]

theorem order_of_gt {a b : α} (h : b < a) : order a b = .gt := by simp [order, h, h.not_gt]

@[simp] theorem order_self (a : α) : order a a = .eq := by simp [order]

theorem order_eq_lt {a b : α} : order a b = .lt ↔ a < b := by
  rcases lt_trichotomy a b with h | rfl | h
  · simp [order_of_lt h, h]
  · simp
  · simp [order_of_gt h, h.not_gt]

theorem order_eq_gt {a b : α} : order a b = .gt ↔ b < a := by
  rcases lt_trichotomy a b with h | rfl | h
  · simp [order_of_lt h, h.not_gt]
  · simp
  · simp [order_of_gt h, h]

theorem order_eq_eq {a b : α} : order a b = .eq ↔ a = b := by
  rcases lt_trichotomy a b with h | rfl | h
  · simp [order_of_lt h, h.ne]
  · simp
  · simp [order_of_gt h, h.ne']

theorem order_swap (a b : α) : order b a = (order a b).swap := by
  rcases lt_trichotomy a b with h | rfl | h
  · rw [order_of_lt h, order_of_gt h]
    rfl
  · simp
  · rw [order_of_gt h, order_of_lt h]
    rfl

theorem order_map {f : α → β} (hf : StrictMono f) (a b : α) : order (f a) (f b) = order a b := by
  rcases lt_trichotomy a b with h | rfl | h
  · rw [order_of_lt h, order_of_lt (hf h)]
  · simp
  · rw [order_of_gt h, order_of_gt (hf h)]

theorem order_cons (a b : α) (as bs : List α) :
    order (a :: as) (b :: bs) = (order a b).then (order as bs) := by
  rcases lt_trichotomy a b with h | rfl | h
  · rw [order_of_lt (List.cons_lt_cons_iff.mpr (.inl h)), order_of_lt h]
    rfl
  · rw [order_self]
    rcases lt_trichotomy as bs with h | rfl | h
    · rw [order_of_lt (List.cons_lt_cons_iff.mpr (.inr ⟨rfl, h⟩)), order_of_lt h]
      rfl
    · rw [order_self, order_self]
      rfl
    · rw [order_of_gt (List.cons_lt_cons_iff.mpr (.inr ⟨rfl, h⟩)), order_of_gt h]
      rfl
  · rw [order_of_gt (List.cons_lt_cons_iff.mpr (.inl h)), order_of_gt h]
    rfl

theorem order_nil_cons (b : α) (bs : List α) : order [] (b :: bs) = .lt := order_of_lt (List.nil_lt_cons b bs)

theorem order_cons_nil (a : α) (as : List α) : order (a :: as) [] = .gt := order_of_gt (List.nil_lt_cons a as)

theorem order_coe (a b : α) : order (a : WithTop α) (b : WithTop α) = order a b :=
  order_map (f := fun x : α => (x : WithTop α)) (fun _ _ h => WithTop.coe_lt_coe.mpr h) a b

theorem order_coe_top (a : α) : order (a : WithTop α) ⊤ = .lt := order_of_lt (WithTop.coe_lt_top a)

theorem order_top_coe (a : α) : order ⊤ (a : WithTop α) = .gt := order_of_gt (WithTop.coe_lt_top a)

theorem toLex_strictMono_left (b : β) : StrictMono (fun a : α => toLex (a, b)) :=
  fun _ _ h => Prod.Lex.toLex_lt_toLex.mpr (.inl h)

theorem toLex_strictMono_right (a : α) : StrictMono (fun b : β => toLex (a, b)) :=
  fun _ _ h => Prod.Lex.toLex_lt_toLex.mpr (.inr ⟨rfl, h⟩)

section Preorder

variable {ε γ : Type}

/-- A comparison that may fail is a total preorder on the listed elements. -/
structure TotalPreorder (cmp : γ → γ → Except ε Ordering) (s : List γ) : Prop where
  swap : ∀ a ∈ s, ∀ b ∈ s, ∃ o, cmp a b = .ok o ∧ cmp b a = .ok o.swap
  trans : ∀ a ∈ s, ∀ b ∈ s, ∀ c ∈ s, ∀ o p q, cmp a b = .ok o → cmp b c = .ok p → cmp a c = .ok q →
    o ≠ .gt → p ≠ .gt → q ≠ .gt

theorem TotalPreorder.self {cmp : γ → γ → Except ε Ordering} {s : List γ} (h : TotalPreorder cmp s) {a : γ}
    (ha : a ∈ s) : cmp a a = .ok .eq := by
  obtain ⟨o, ho, hswap⟩ := h.swap a ha a ha
  rw [ho] at hswap
  cases o with
  | eq => exact ho
  | lt => cases hswap
  | gt => cases hswap

theorem totalPreorder_of_order {cmp : γ → γ → Except ε Ordering} {s : List γ} {f : γ → α}
    (h : ∀ a ∈ s, ∀ b ∈ s, cmp a b = .ok (order (f a) (f b))) : TotalPreorder cmp s where
  swap a ha b hb := ⟨_, h a ha b hb, by rw [h b hb a ha, order_swap]⟩
  trans a ha b hb c hc o p q hab hbc hac ho hp := by
    rw [h a ha b hb] at hab
    rw [h b hb c hc] at hbc
    rw [h a ha c hc] at hac
    cases hab
    cases hbc
    cases hac
    rw [ne_eq, order_eq_gt, not_lt] at ho hp ⊢
    exact ho.trans hp

end Preorder

end LevelPgServer.ThreeWay
