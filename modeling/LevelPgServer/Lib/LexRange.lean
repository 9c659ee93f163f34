import Mathlib.Tactic
import Mathlib.Data.List.Lex

namespace LevelPgServer.LexRange

variable {α : Type} [LinearOrder α]

/-- `k` is not before the start `s` of a range. -/
def AfterStart (inclusive : Bool) (s k : List α) : Prop := if inclusive then s ≤ k else s < k

/-- `k` is not behind the end `e` of a range. -/
def BeforeEnd (inclusive : Bool) (e k : List α) : Prop := if inclusive then k ≤ e else k < e

instance (inclusive : Bool) (s k : List α) : Decidable (AfterStart inclusive s k) := by
  unfold AfterStart; infer_instance

instance (inclusive : Bool) (e k : List α) : Decidable (BeforeEnd inclusive e k) := by
  unfold BeforeEnd; infer_instance

@[simp] theorem afterStart_true (s k : List α) : AfterStart true s k ↔ s ≤ k := by simp [AfterStart]
@[simp] theorem afterStart_false (s k : List α) : AfterStart false s k ↔ s < k := by simp [AfterStart]
@[simp] theorem beforeEnd_true (e k : List α) : BeforeEnd true e k ↔ k ≤ e := by simp [BeforeEnd]
@[simp] theorem beforeEnd_false (e k : List α) : BeforeEnd false e k ↔ k < e := by simp [BeforeEnd]

theorem AfterStart.le {inclusive : Bool} {s k : List α} (h : AfterStart inclusive s k) : s ≤ k := by
  cases inclusive with
  | true => simpa using h
  | false => exact le_of_lt (by simpa using h)

theorem BeforeEnd.le {inclusive : Bool} {e k : List α} (h : BeforeEnd inclusive e k) : k ≤ e := by
  cases inclusive with
  | true => simpa using h
  | false => exact le_of_lt (by simpa using h)

theorem AfterStart.mono {inclusive : Bool} {s k k' : List α} (h : AfterStart inclusive s k) (hk : k ≤ k') :
    AfterStart inclusive s k' := by
  cases inclusive with
  | true => simpa using (show s ≤ k by simpa using h).trans hk
  | false => simpa using (show s < k by simpa using h).trans_le hk

theorem BeforeEnd.mono {inclusive : Bool} {e k k' : List α} (h : BeforeEnd inclusive e k) (hk : k' ≤ k) :
    BeforeEnd inclusive e k' := by
  cases inclusive with
  | true => simpa using hk.trans (show k ≤ e by simpa using h)
  | false => simpa using hk.trans_lt (show k < e by simpa using h)

theorem cons_le_cons {a b : α} {as bs : List α} : a :: as ≤ b :: bs ↔ a < b ∨ a = b ∧ as ≤ bs := by
  rw [← not_lt, ← not_lt, List.cons_lt_cons_iff]
  rcases lt_trichotomy a b with h | rfl | h
  · simp [h, h.not_gt, h.ne']
  · simp
  · simp [h, h.not_gt, h.ne']

/-- Lists that are below each other place by place are so as a whole. -/
theorem le_of_forall₂ {as bs : List α} (h : List.Forall₂ (· ≤ ·) as bs) : as ≤ bs := by
  induction h with
  | nil => exact le_rfl
  | cons hab _ ih =>
    rcases lt_or_eq_of_le hab with hlt | rfl
    · exact cons_le_cons.mpr (.inl hlt)
    · exact cons_le_cons.mpr (.inr ⟨rfl, ih⟩)

/-- A range whose two ends agree in the first column pins that column. -/
theorem between_cons (i j : Bool) (c k : α) (s e ks : List α) :
    (AfterStart i (c :: s) (k :: ks) ∧ BeforeEnd j (c :: e) (k :: ks)) ↔
      k = c ∧ AfterStart i s ks ∧ BeforeEnd j e ks := by
  constructor
  · rintro ⟨hs, he⟩
    have h1 := cons_le_cons.mp hs.le
    have h2 := cons_le_cons.mp he.le
    obtain rfl : k = c := by
      rcases h1 with h1 | ⟨h1, -⟩
      · rcases h2 with h2 | ⟨h2, -⟩
        · exact absurd h1 h2.not_gt
        · exact h2
      · exact h1.symm
    refine ⟨rfl, ?_, ?_⟩
    · cases i <;> simpa [cons_le_cons, List.cons_lt_cons_iff] using hs
    · cases j <;> simpa [cons_le_cons, List.cons_lt_cons_iff] using he
  · rintro ⟨rfl, hs, he⟩
    constructor
    · cases i <;> simpa [cons_le_cons, List.cons_lt_cons_iff] using hs
    · cases j <;> simpa [cons_le_cons, List.cons_lt_cons_iff] using he

/-- An inclusive start padded with the least values is a bound on the first column. -/
theorem afterStart_cons_least {l k : α} {mins ks : List α} (h : mins ≤ ks) :
    AfterStart true (l :: mins) (k :: ks) ↔ l ≤ k := by
  rw [afterStart_true, cons_le_cons, and_iff_left h, le_iff_lt_or_eq]

/-- An exclusive start is padded with the greatest values. -/
theorem afterStart_cons_greatest {l k : α} {maxs ks : List α} (h : ks ≤ maxs) :
    AfterStart false (l :: maxs) (k :: ks) ↔ l < k := by
  rw [afterStart_false, List.cons_lt_cons_iff]
  exact or_iff_left fun hlt => absurd hlt.2 h.not_gt

theorem beforeEnd_cons_greatest {u k : α} {maxs ks : List α} (h : ks ≤ maxs) :
    BeforeEnd true (u :: maxs) (k :: ks) ↔ k ≤ u := by
  rw [beforeEnd_true, cons_le_cons, and_iff_left h, le_iff_lt_or_eq]

theorem beforeEnd_cons_least {u k : α} {mins ks : List α} (h : mins ≤ ks) :
    BeforeEnd false (u :: mins) (k :: ks) ↔ k < u := by
  rw [beforeEnd_false, List.cons_lt_cons_iff]
  exact or_iff_left fun hlt => absurd hlt.2 h.not_gt

end LevelPgServer.LexRange
