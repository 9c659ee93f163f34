import Mathlib

/-! Byte regions taken one behind the other from arenas that are used up in turn. -/

namespace LevelPgServer.Regions

/-- `size` bytes of an arena. -/
structure Region (α : Type) where
  arena : α
  offset : Nat
  size : Nat

variable {α : Type} {arenas : List α} {limit cur used : Nat} {rs : List (Region α)} {r r' : Region α} {a : α}

namespace Region

def bytes (r : Region α) : Set (α × Nat) := {x | x.1 = r.arena ∧ r.offset ≤ x.2 ∧ x.2 < r.offset + r.size}

theorem disjoint_of_arena (h : r.arena ≠ r'.arena) : Disjoint r.bytes r'.bytes := by
  rw [Set.disjoint_left]
  rintro x ⟨hx, -⟩ ⟨hx', -⟩
  exact h (hx.symm.trans hx')

theorem disjoint_of_le (h : r.offset + r.size ≤ r'.offset) : Disjoint r'.bytes r.bytes := by
  rw [Set.disjoint_left]
  rintro x ⟨-, hx, -⟩ ⟨-, -, hx'⟩
  omega

end Region

/-- The regions share no byte, and lie in front of byte `used` of the arena `cur` or in an arena before it. -/
structure Stacked (arenas : List α) (limit cur used : Nat) (rs : List (Region α)) : Prop where
  pairwise : rs.Pairwise fun r r' => Disjoint r.bytes r'.bytes
  placed : ∀ r ∈ rs, ∃ k, arenas[k]? = some r.arena ∧ r.offset + r.size ≤ limit ∧ k ≤ cur ∧
    (k = cur → r.offset + r.size ≤ used)

theorem stacked_nil : Stacked arenas limit cur used [] := ⟨.nil, fun _ h => by cases h⟩

namespace Stacked

theorem mem (h : Stacked arenas limit cur used rs) (hr : r ∈ rs) : r.arena ∈ arenas ∧ r.offset + r.size ≤ limit := by
  obtain ⟨k, hk, hlimit, -⟩ := h.placed r hr
  exact ⟨List.mem_of_getElem? hk, hlimit⟩

theorem grow (h : Stacked arenas limit cur used rs) (a : α) : Stacked (arenas ++ [a]) limit cur used rs where
  pairwise := h.pairwise
  placed r hr := by
    obtain ⟨k, hk, hrest⟩ := h.placed r hr
    exact ⟨k, by rw [List.getElem?_append_left (List.getElem?_eq_some_iff.mp hk).1, hk], hrest⟩

theorem skip (h : Stacked arenas limit cur used rs) {used' : Nat} (hu : used ≤ used') :
    Stacked arenas limit cur used' rs where
  pairwise := h.pairwise
  placed r hr := by
    obtain ⟨k, hk, hlimit, hcur, hused⟩ := h.placed r hr
    exact ⟨k, hk, hlimit, hcur, fun hk => (hused hk).trans hu⟩

theorem next (h : Stacked arenas limit cur used rs) (used' : Nat) : Stacked arenas limit (cur + 1) used' rs where
  pairwise := h.pairwise
  placed r hr := by
    obtain ⟨k, hk, hlimit, hcur, -⟩ := h.placed r hr
    exact ⟨k, hk, hlimit, by omega, fun hk => by omega⟩

theorem take (h : Stacked arenas limit cur used rs) (hn : arenas.Nodup) (ha : arenas[cur]? = some a) {size : Nat}
    (hsize : used + size ≤ limit) : Stacked arenas limit cur (used + size) (⟨a, used, size⟩ :: rs) where
  pairwise := by
    refine .cons (fun r hr => ?_) h.pairwise
    obtain ⟨k, hk, -, -, hused⟩ := h.placed r hr
    by_cases hkcur : k = cur
    · exact Region.disjoint_of_le (hused hkcur)
    · refine Region.disjoint_of_arena fun heq => hkcur ?_
      have heq : a = r.arena := heq
      obtain ⟨hlt, hget⟩ := List.getElem?_eq_some_iff.mp hk
      obtain ⟨hlt', hget'⟩ := List.getElem?_eq_some_iff.mp ha
      exact (List.Nodup.getElem_inj_iff hn).mp (hget.trans (heq.symm.trans hget'.symm))
  placed r hr := by
    obtain rfl | hr := List.mem_cons.mp hr
    · exact ⟨cur, ha, hsize, le_rfl, fun _ => le_rfl⟩
    · obtain ⟨k, hk, hlimit, hcur, hused⟩ := h.placed r hr
      exact ⟨k, hk, hlimit, hcur, fun hk => (hused hk).trans (Nat.le_add_right _ _)⟩

end Stacked

end LevelPgServer.Regions
