import Mathlib.Tactic

namespace LevelPgServer.Scatter

variable {α : Type}

/-- Store every value that has a place at that place, later ones over earlier ones. -/
def scatter : List (Option Nat × α) → List α → List α
  | [], acc => acc
  | (none, _) :: ps, acc => scatter ps acc
  | (some k, a) :: ps, acc => scatter ps (acc.set k a)

@[simp] theorem length_scatter (ps : List (Option Nat × α)) (acc : List α) :
    (scatter ps acc).length = acc.length := by
  induction ps generalizing acc with
  | nil => rfl
  | cons p ps ih =>
    obtain ⟨k | k, a⟩ := p
    · exact ih acc
    · rw [scatter, ih, List.length_set]

theorem getElem?_scatter_of_notMem {ps : List (Option Nat × α)} {k : Nat} (h : ∀ p ∈ ps, p.1 ≠ some k)
    (acc : List α) : (scatter ps acc)[k]? = acc[k]? := by
  induction ps generalizing acc with
  | nil => rfl
  | cons p ps ih =>
    have hps : ∀ q ∈ ps, q.1 ≠ some k := fun q hq => h q (by simp [hq])
    obtain ⟨j | j, a⟩ := p
    · exact ih hps acc
    · have hj : j ≠ k := fun he => h (some j, a) (by simp) (by rw [he])
      rw [scatter, ih hps, List.getElem?_set_ne hj]

theorem getElem?_scatter {ps : List (Option Nat × α)} {k : Nat} {a : α} (hm : (some k, a) ∈ ps)
    (hu : ∀ b, (some k, b) ∈ ps → b = a) (acc : List α) (hk : k < acc.length) :
    (scatter ps acc)[k]? = some a := by
  induction ps generalizing acc with
  | nil => simp at hm
  | cons p ps ih =>
    by_cases hps : ∃ b, (some k, b) ∈ ps
    · obtain ⟨b, hb⟩ := hps
      obtain rfl := hu b (by simp [hb])
      have hu' : ∀ c, (some k, c) ∈ ps → c = b := fun c hc => hu c (by simp [hc])
      obtain ⟨j | j, c⟩ := p
      · exact ih hb hu' acc hk
      · exact ih hb hu' (acc.set j c) (by simpa using hk)
    · have hn : ∀ q ∈ ps, q.1 ≠ some k := fun q hq he => hps ⟨q.2, he ▸ hq⟩
      rcases List.mem_cons.mp hm with rfl | hm
      · rw [scatter, getElem?_scatter_of_notMem hn, List.getElem?_set_self hk]
      · exact absurd ⟨a, hm⟩ hps

/-- When every place is taken and its values agree, nothing of what was there is left. -/
theorem scatter_eq {ps : List (Option Nat × α)} {l acc : List α} (hlen : acc.length = l.length)
    (hl : ∀ k a, l[k]? = some a → (some k, a) ∈ ps) (hu : ∀ k a b, l[k]? = some a → (some k, b) ∈ ps → b = a) :
    scatter ps acc = l := by
  refine List.ext_getElem (by rw [length_scatter, hlen]) fun k h1 h2 => ?_
  have ha := List.getElem?_eq_getElem h2
  have hs := getElem?_scatter (hl k _ ha) (fun b hb => hu k _ b ha hb) acc (by rw [hlen]; exact h2)
  rw [List.getElem?_eq_getElem h1] at hs
  exact Option.some.inj hs

end LevelPgServer.Scatter
