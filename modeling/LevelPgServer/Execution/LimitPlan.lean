import LevelPgServer.Execution.LevelDBScanPlan

namespace LevelPgServer

structure LimitPlan where
  limit : UInt64
  offset : UInt64
  deriving DecidableEq, Repr

namespace LimitPlan

variable {ρ : Type}

def setLimit (iLimit iOffset : Int) : LimitPlan := ⟨UInt64.ofInt iLimit, UInt64.ofInt iOffset⟩

/-- The calls of `next` over the rows the child still has: what they deliver, and `m_iCurrent`
after the last of them. A row behind the limit is fetched and counted before `next` returns false. -/
def nextAll (plan : LimitPlan) (fault : Option Fault) : List ρ → Nat → Run ρ × Nat
  | [], current => (⟨[], fault⟩, current)
  | r :: rs, current =>
    if current < plan.offset.toNat then nextAll plan fault rs (current + 1)
    else if current < (plan.limit + plan.offset).toNat then
      let rest := nextAll plan fault rs (current + 1)
      (.cons r rest.1, rest.2)
    else (.done, current + 1)

def run (plan : LimitPlan) (child : Run ρ) : Run ρ := (plan.nextAll child.fault child.rows 0).1

/-- `m_iCurrent - m_iOffset` after a run. -/
def count (plan : LimitPlan) (child : Run ρ) : Nat :=
  (UInt64.ofNat (plan.nextAll child.fault child.rows 0).2 - plan.offset).toNat

/-- What the calls of `next` do with `n` further rows: skip, deliver, and stop behind the limit. -/
theorem nextAll_skip (plan : LimitPlan) (f : Option Fault) (rows : List ρ) (current : Nat)
    (h : current + rows.length ≤ plan.offset.toNat) :
    plan.nextAll f rows current = (⟨[], f⟩, current + rows.length) := by
  induction rows generalizing current with
  | nil => rfl
  | cons r rs ih =>
    rw [List.length_cons] at h
    rw [nextAll, if_pos (by omega), ih (current + 1) (by omega), List.length_cons]
    congr 1
    omega

theorem nextAll_append (plan : LimitPlan) (f : Option Fault) (rows more : List ρ) (current : Nat)
    (h : current + rows.length ≤ plan.offset.toNat) :
    plan.nextAll f (rows ++ more) current = plan.nextAll f more (current + rows.length) := by
  induction rows generalizing current with
  | nil => rfl
  | cons r rs ih =>
    rw [List.length_cons] at h
    rw [List.cons_append, nextAll, if_pos (by omega), ih (current + 1) (by omega), List.length_cons]
    congr 1
    omega

theorem nextAll_deliver (plan : LimitPlan) (f : Option Fault) (rows : List ρ) {current : Nat}
    (ho : plan.offset.toNat ≤ current) (h : current + rows.length ≤ (plan.limit + plan.offset).toNat) :
    plan.nextAll f rows current = (⟨rows, f⟩, current + rows.length) := by
  induction rows generalizing current with
  | nil => rfl
  | cons r rs ih =>
    rw [List.length_cons] at h
    rw [nextAll, if_neg (by omega), if_pos (by omega), ih (by omega) (by omega), List.length_cons]
    simp only [Run.cons, Prod.mk.injEq, true_and]
    omega

theorem nextAll_full (plan : LimitPlan) (f : Option Fault) (rows : List ρ) {current : Nat}
    (ho : plan.offset.toNat ≤ current) (hl : current ≤ (plan.limit + plan.offset).toNat)
    (h : (plan.limit + plan.offset).toNat < current + rows.length) :
    plan.nextAll f rows current =
      (⟨rows.take ((plan.limit + plan.offset).toNat - current), none⟩, (plan.limit + plan.offset).toNat + 1) := by
  induction rows generalizing current with
  | nil =>
    rw [List.length_nil] at h
    omega
  | cons r rs ih =>
    rw [List.length_cons] at h
    by_cases hc : current < (plan.limit + plan.offset).toNat
    · have hsub : (plan.limit + plan.offset).toNat - current = (plan.limit + plan.offset).toNat - (current + 1) + 1 := by
        omega
      rw [nextAll, if_neg (by omega), if_pos hc, ih (by omega) (by omega) (by omega), hsub, List.take_succ_cons]
      rfl
    · have hsub : (plan.limit + plan.offset).toNat - current = 0 := by omega
      rw [nextAll, if_neg (by omega), if_neg hc, hsub, List.take_zero]
      simp only [Run.done, Prod.mk.injEq, true_and]
      omega

theorem nextAll_behind (plan : LimitPlan) (f : Option Fault) {rows : List ρ} {current : Nat}
    (ho : plan.offset.toNat ≤ current) (hl : (plan.limit + plan.offset).toNat ≤ current) (h : rows ≠ []) :
    plan.nextAll f rows current = (⟨[], none⟩, current + 1) := by
  obtain ⟨r, rs, rfl⟩ := List.exists_cons_of_ne_nil h
  rw [nextAll, if_neg (by omega), if_neg (by omega)]
  rfl

/-- The number of rows that a limit can count: those up to its offset are needed, and none may stand
behind its last row. -/
def CountsAll (plan : LimitPlan) (n : Nat) : Prop :=
  plan.offset.toNat ≤ n ∧ n ≤ max plan.offset.toNat (plan.limit + plan.offset).toNat

theorem count_toNat (plan : LimitPlan) {current n : Nat} (h : plan.offset.toNat + n = current) (hn : n < 2 ^ 64) :
    (UInt64.ofNat current - plan.offset).toNat = n := by
  have ho := plan.offset.toNat_lt
  rw [UInt64.toNat_sub, UInt64.toNat_ofNat']
  omega

theorem count_short (plan : LimitPlan) {current : Nat} (h : current < plan.offset.toNat) :
    (UInt64.ofNat current - plan.offset).toNat ≠ 0 := by
  have ho := plan.offset.toNat_lt
  rw [UInt64.toNat_sub, UInt64.toNat_ofNat']
  omega

/-- `m_iCurrent - m_iOffset` is the number of delivered rows exactly when the child has neither too
few rows for the offset nor more than the limit lets through. -/
theorem count_eq_iff (plan : LimitPlan) (child : Run ρ) :
    plan.count child = (plan.run child).rows.length ↔ plan.CountsAll child.rows.length := by
  have ho := plan.offset.toNat_lt
  have hs := (plan.limit + plan.offset).toNat_lt
  rw [count, run, CountsAll]
  by_cases hshort : child.rows.length ≤ plan.offset.toNat
  · rw [nextAll_skip plan _ _ 0 (by omega), Nat.zero_add]
    by_cases heq : child.rows.length = plan.offset.toNat
    · rw [count_toNat plan (n := 0) (by omega) (by omega)]
      exact iff_of_true rfl ⟨by omega, by omega⟩
    · exact iff_of_false (count_short plan (by omega)) (by omega)
  · obtain ⟨skipped, rows, hrows, hlen⟩ : ∃ skipped rows, child.rows = skipped ++ rows ∧
        skipped.length = plan.offset.toNat :=
      ⟨child.rows.take plan.offset.toNat, child.rows.drop plan.offset.toNat, by simp, by
        rw [List.length_take]
        omega⟩
    have hne : rows ≠ [] := by
      rintro rfl
      rw [hrows, List.append_nil] at hshort
      omega
    have hpos : 0 < rows.length := List.length_pos_iff.mpr hne
    rw [hrows, nextAll_append plan _ _ _ 0 (by omega), Nat.zero_add, hlen, List.length_append, hlen]
    by_cases hbehind : (plan.limit + plan.offset).toNat ≤ plan.offset.toNat
    · rw [nextAll_behind plan _ le_rfl hbehind hne, count_toNat plan rfl (by omega)]
      exact iff_of_false (by simp) (by omega)
    · by_cases hall : plan.offset.toNat + rows.length ≤ (plan.limit + plan.offset).toNat
      · rw [nextAll_deliver plan _ _ le_rfl hall, count_toNat plan rfl (by omega)]
        exact iff_of_true rfl ⟨by omega, by omega⟩
      · rw [nextAll_full plan _ _ le_rfl (by omega) (by omega)]
        refine iff_of_false ?_ (by omega)
        have htake : (rows.take ((plan.limit + plan.offset).toNat - plan.offset.toNat)).length =
            (plan.limit + plan.offset).toNat - plan.offset.toNat := by
          rw [List.length_take]
          omega
        dsimp only
        rw [htake, UInt64.toNat_sub, UInt64.toNat_ofNat']
        omega

end LimitPlan

end LevelPgServer
