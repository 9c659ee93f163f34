import Mathlib.Tactic

namespace LevelPgServer.BumpAlloc

variable {ε α β : Type}

/-- Take `size` bytes from an arena of `limit` bytes whose first free byte is the
state. A request that does not fit leaves the arena as it was. -/
def alloc (limit : Nat) (full : ε) (size : Nat) : EStateM ε Nat Unit := fun cur =>
  if limit < cur + size then .error full cur else .ok () (cur + size)

/-- The computation takes exactly `n` bytes and returns `a`, unless the arena has
fewer than `n` bytes left; then it fails with `full` and with nothing else. -/
structure Allocates (limit : Nat) (full : ε) (m : EStateM ε Nat α) (a : α) (n : Nat) : Prop where
  fits : ∀ cur, cur + n ≤ limit → m cur = .ok a (cur + n)
  overflows : ∀ cur, cur ≤ limit → limit < cur + n → ∃ cur', m cur = .error full cur'

variable {limit : Nat} {full : ε}

theorem Allocates.pure (a : α) : Allocates limit full (Pure.pure a) a 0 where
  fits _ _ := rfl
  overflows cur hcur h := by omega

theorem Allocates.alloc (size : Nat) :
    Allocates limit full (BumpAlloc.alloc limit full size) () size where
  fits cur h := by
    have hn : ¬ limit < cur + size := by omega
    simp [BumpAlloc.alloc, hn]
  overflows cur _ h := ⟨cur, by simp [BumpAlloc.alloc, h]⟩

theorem Allocates.bind {m : EStateM ε Nat α} {f : α → EStateM ε Nat β} {a : α} {b : β} {n k : Nat}
    (hm : Allocates limit full m a n) (hf : Allocates limit full (f a) b k) :
    Allocates limit full (m >>= f) b (n + k) where
  fits cur h := by
    have h1 := hm.fits cur (by omega)
    have h2 := hf.fits (cur + n) (by omega)
    simp [Bind.bind, EStateM.bind, h1, h2, Nat.add_assoc]
  overflows cur hcur h := by
    by_cases hn : cur + n ≤ limit
    · have h1 := hm.fits cur hn
      obtain ⟨cur', h2⟩ := hf.overflows (cur + n) hn (by omega)
      exact ⟨cur', by simp [Bind.bind, EStateM.bind, h1, h2]⟩
    · obtain ⟨cur', h1⟩ := hm.overflows cur hcur (by omega)
      exact ⟨cur', by simp [Bind.bind, EStateM.bind, h1]⟩

theorem Allocates.bind_pure {m : EStateM ε Nat α} {f : α → EStateM ε Nat β} {a : α} {b : β} {n : Nat}
    (hm : Allocates limit full m a n) (hf : f a = Pure.pure b) : Allocates limit full (m >>= f) b n := by
  have hb : Allocates limit full (f a) b 0 := hf ▸ Allocates.pure b
  exact hm.bind hb

theorem Allocates.of_eq {m m' : EStateM ε Nat α} {a : α} {n : Nat}
    (h : Allocates limit full m a n) (he : m' = m) : Allocates limit full m' a n := he ▸ h

theorem Allocates.unique {m : EStateM ε Nat α} {a b : α} {n : Nat} {cur cur' : Nat}
    (h : Allocates limit full m a n) (hcur : cur ≤ limit) (hm : m cur = .ok b cur') :
    b = a ∧ cur' = cur + n := by
  by_cases hn : cur + n ≤ limit
  · have h1 := h.fits cur hn
    rw [hm] at h1
    cases h1
    exact ⟨rfl, rfl⟩
  · obtain ⟨c, h1⟩ := h.overflows cur hcur (by omega)
    rw [hm] at h1
    cases h1

end LevelPgServer.BumpAlloc
