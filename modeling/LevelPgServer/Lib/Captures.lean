import Mathlib.Data.List.TakeWhile
import Mathlib.Tactic

/-! Patterns that are tried from left to right, each repetition as long as possible first. -/

namespace LevelPgServer.Captures

variable {α β : Type}

/-- One character, or a run of at least `least` characters, which is kept where it stands in parentheses. -/
inductive Item (α : Type)
  | one (p : α → Bool)
  | run (p : α → Bool) (least : Nat) (kept : Bool)

def Item.class : Item α → α → Bool
  | one p | run p _ _ => p

/-- The first success of `f` at `n`, `n - 1` and so on down to `least`. -/
def longestFirst (f : Nat → Option β) (least : Nat) : Nat → Option β
  | 0 => if least = 0 then f 0 else none
  | n + 1 => if n + 1 < least then none else (f (n + 1)).or (longestFirst f least n)

/-- What the items keep of a prefix of `s`, and the text behind it. -/
def matchAt : List (Item α) → List α → Option (List (List α) × List α)
  | [], s => some ([], s)
  | .one p :: items, s =>
    match s with
    | [] => none
    | a :: s => if p a then matchAt items s else none
  | .run p least kept :: items, s =>
    longestFirst (fun k => (matchAt items (s.drop k)).map fun r => (if kept then s.take k :: r.1 else r.1, r.2)) least
      (s.takeWhile p).length

def search (items : List (Item α)) : List α → Option (List (List α) × List α)
  | [] => matchAt items []
  | a :: s => (matchAt items (a :: s)).or (search items s)

theorem longestFirst_congr {f g : Nat → Option β} {least n : Nat} (h : ∀ k ≤ n, f k = g k) :
    longestFirst f least n = longestFirst g least n := by
  induction n with
  | zero => rw [longestFirst, longestFirst, h 0 le_rfl]
  | succ n ih => rw [longestFirst, longestFirst, h (n + 1) le_rfl, ih fun k hk => h k (by omega)]

theorem longestFirst_map {γ : Type} (f : Nat → Option β) (g : β → γ) (least n : Nat) :
    longestFirst (fun k => (f k).map g) least n = (longestFirst f least n).map g := by
  induction n with
  | zero =>
    rw [longestFirst, longestFirst]
    split <;> rfl
  | succ n ih =>
    rw [longestFirst, longestFirst]
    split
    · rfl
    · rw [ih]
      cases f (n + 1) <;> rfl

theorem longestFirst_of_some {f : Nat → Option β} {least n : Nat} {b : β} (h : f n = some b) (hl : least ≤ n) :
    longestFirst f least n = some b := by
  cases n with
  | zero => rw [longestFirst, if_pos (by omega), h]
  | succ n =>
    rw [longestFirst, if_neg (by omega), h]
    rfl

theorem longestFirst_of_none {f : Nat → Option β} {least n : Nat} (h : ∀ k < n, f k = none) :
    longestFirst f least n = if least ≤ n then f n else none := by
  have hnone : ∀ m < n, longestFirst f least m = none := by
    intro m
    induction m with
    | zero =>
      intro hm
      rw [longestFirst, h 0 hm]
      split <;> rfl
    | succ m ih =>
      intro hm
      rw [longestFirst, h (m + 1) hm, ih (by omega)]
      split <;> rfl
  cases n with
  | zero =>
    rw [longestFirst]
    simp only [Nat.le_zero]
  | succ n =>
    rw [longestFirst, hnone n (by omega), Option.or_none]
    by_cases hl : least ≤ n + 1
    · rw [if_neg (by omega), if_pos hl]
    · rw [if_pos (by omega), if_neg hl]

section Append

variable {items : List (Item α)} {s t : List α}

theorem takeWhile_append_of_rejects {p : α → Bool} (h : ∀ a ∈ t, p a = false) :
    (s ++ t).takeWhile p = s.takeWhile p := by
  induction s with
  | nil =>
    cases t with
    | nil => rfl
    | cons a t => simp [h a (by simp)]
  | cons a s ih =>
    rw [List.cons_append, List.takeWhile_cons, List.takeWhile_cons, ih]

/-- Text that no item takes does not change a match in front of it. -/
theorem matchAt_append (h : ∀ item ∈ items, ∀ a ∈ t, item.class a = false) :
    matchAt items (s ++ t) = (matchAt items s).map fun r => (r.1, r.2 ++ t) := by
  induction items generalizing s with
  | nil => rfl
  | cons item items ih =>
    have hrest : ∀ item ∈ items, ∀ a ∈ t, item.class a = false := fun i hi => h i (by simp [hi])
    cases item with
    | one p =>
      cases s with
      | nil =>
        cases t with
        | nil => rfl
        | cons a t =>
          have hp : p a = false := h (.one p) (by simp) a (by simp)
          simp [matchAt, hp]
      | cons a s =>
        rw [List.cons_append, matchAt, matchAt]
        split
        · exact ih hrest
        · rfl
    | run p least kept =>
      have hp : ∀ a ∈ t, p a = false := h (.run p least kept) (by simp)
      rw [matchAt, matchAt, takeWhile_append_of_rejects hp, ← longestFirst_map]
      refine longestFirst_congr fun k hk => ?_
      have hle : k ≤ s.length := hk.trans (List.takeWhile_prefix p).length_le
      rw [List.drop_append_of_le_length hle, List.take_append_of_le_length hle, ih hrest]
      cases matchAt items (s.drop k) <;> rfl

theorem search_append (h : ∀ item ∈ items, ∀ a ∈ t, item.class a = false) (hnil : matchAt items [] = none) :
    search items (s ++ t) = (search items s).map fun r => (r.1, r.2 ++ t) := by
  induction s with
  | nil =>
    rw [List.nil_append, search, hnil, Option.map_none]
    induction t with
    | nil => exact hnil
    | cons a t ih =>
      have hmatch := @matchAt_append _ items [] (a :: t) h
      rw [List.nil_append, hnil] at hmatch
      rw [search, hmatch, Option.map_none, Option.none_or]
      exact ih fun item hi b hb => h item hi b (by simp [hb])
  | cons a s ih =>
    rw [List.cons_append, search, search, ← List.cons_append, matchAt_append h, ih]
    cases matchAt items (a :: s) <;> rfl

end Append

section Run

variable {p : α → Bool} {s : List α}

theorem drop_takeWhile (p : α → Bool) (s : List α) : s.drop (s.takeWhile p).length = s.dropWhile p := by
  have h := @List.drop_left _ (s.takeWhile p) (s.dropWhile p)
  rwa [List.takeWhile_append_dropWhile] at h

theorem take_takeWhile (p : α → Bool) (s : List α) : s.take (s.takeWhile p).length = s.takeWhile p := by
  have h := @List.take_left _ (s.takeWhile p) (s.dropWhile p)
  rwa [List.takeWhile_append_dropWhile] at h

/-- A shorter run leaves one of its characters in front of the next item. -/
theorem drop_lt_takeWhile {k : Nat} (h : k < (s.takeWhile p).length) : ∃ c t, s.drop k = c :: t ∧ p c = true := by
  have hlt : k < s.length := h.trans_le (List.takeWhile_prefix p).length_le
  refine ⟨s[k], s.drop (k + 1), List.drop_eq_getElem_cons hlt, ?_⟩
  have hget : (s.takeWhile p)[k] = s[k] := (List.takeWhile_prefix p).getElem h
  rw [← hget]
  exact List.mem_takeWhile_imp (List.getElem_mem h)

/-- A run whose last character the next items do not take is as long as it can be. -/
theorem matchAt_run {least : Nat} {kept : Bool} {items : List (Item α)}
    (h : ∀ c t, p c = true → matchAt items (c :: t) = none) :
    matchAt (.run p least kept :: items) s =
      if least ≤ (s.takeWhile p).length then
        (matchAt items (s.dropWhile p)).map fun r => (if kept then s.takeWhile p :: r.1 else r.1, r.2)
      else none := by
  rw [matchAt, longestFirst_of_none, drop_takeWhile, take_takeWhile]
  intro k hk
  obtain ⟨c, t, hdrop, hc⟩ := drop_lt_takeWhile hk
  rw [hdrop, h c t hc]
  rfl

theorem takeWhile_of_head (h : ∀ c, s.head? = some c → p c = false) : s.takeWhile p = [] ∧ s.dropWhile p = s := by
  cases s with
  | nil => exact ⟨rfl, rfl⟩
  | cons c s =>
    have hc := h c rfl
    exact ⟨by simp [hc], by simp [hc]⟩

theorem head_dropWhile {c : α} (h : (s.dropWhile p).head? = some c) : p c = false := by
  induction s with
  | nil => cases h
  | cons a s ih =>
    rw [List.dropWhile_cons] at h
    split at h
    · exact ih h
    · next ha =>
      cases h
      simpa using ha

end Run

section Kept

theorem longestFirst_some {f : Nat → Option β} {least n : Nat} {b : β} (h : longestFirst f least n = some b) :
    ∃ k ≤ n, f k = some b := by
  induction n with
  | zero =>
    rw [longestFirst] at h
    split at h
    · exact ⟨0, le_rfl, h⟩
    · cases h
  | succ n ih =>
    rw [longestFirst] at h
    split at h
    · cases h
    · obtain h | ⟨-, h⟩ := Option.or_eq_some_iff.mp h
      · exact ⟨n + 1, le_rfl, h⟩
      · obtain ⟨k, hk, hf⟩ := ih h
        exact ⟨k, hk.trans (Nat.le_succ n), hf⟩

def keptClasses (items : List (Item α)) : List (α → Bool) :=
  items.filterMap fun
    | .run p _ true => some p
    | _ => none

theorem matchAt_kept {items : List (Item α)} {s rest : List α} {kept : List (List α)}
    (h : matchAt items s = some (kept, rest)) : List.Forall₂ (fun p w => ∀ a ∈ w, p a = true) (keptClasses items) kept := by
  induction items generalizing s kept rest with
  | nil =>
    cases h
    exact .nil
  | cons item items ih =>
    cases item with
    | one p =>
      cases s with
      | nil => cases h
      | cons a s =>
        rw [matchAt] at h
        split at h
        · exact ih h
        · cases h
    | run p least keep =>
      obtain ⟨k, hk, hf⟩ := longestFirst_some h
      obtain ⟨⟨kept', rest'⟩, hmatch, hr⟩ := Option.map_eq_some_iff.mp hf
      cases hr
      cases keep with
      | false => exact ih hmatch
      | true =>
        refine .cons (fun a ha => ?_) (ih hmatch)
        have hstart : s.take k <+: s.takeWhile p := by
          rw [List.prefix_iff_eq_take]
          have hlen : (s.take k).length = k := by
            rw [List.length_take, Nat.min_eq_left (hk.trans (List.takeWhile_prefix p).length_le)]
          rw [hlen, ← take_takeWhile p s, List.take_take, Nat.min_eq_left hk]
        exact List.mem_takeWhile_imp (hstart.subset ha)

theorem search_kept {items : List (Item α)} {s rest : List α} {kept : List (List α)}
    (h : search items s = some (kept, rest)) : List.Forall₂ (fun p w => ∀ a ∈ w, p a = true) (keptClasses items) kept := by
  induction s with
  | nil => exact matchAt_kept h
  | cons a s ih =>
    obtain h | ⟨-, h⟩ := Option.or_eq_some_iff.mp h
    · exact matchAt_kept h
    · exact ih h

end Kept

end LevelPgServer.Captures
