import Mathlib.Data.List.Infix

/-! Patterns in which one character stands for any sequence, and one perhaps for any character. -/

namespace LevelPgServer.Wildcard

variable {α : Type} {many : α} {one : Option α} {c : α} {p q s t : List α}

inductive Matches (many : α) (one : Option α) : List α → List α → Prop
  | nil : Matches many one [] []
  | self {c : α} {p s : List α} (hc : c ≠ many) (h : Matches many one p s) : Matches many one (c :: p) (c :: s)
  | one {c d : α} {p s : List α} (hc : one = some c) (h : Matches many one p s) : Matches many one (c :: p) (d :: s)
  | many {p s : List α} (u : List α) (h : Matches many one p s) : Matches many one (many :: p) (u ++ s)

def Plain (many : α) (one : Option α) (p : List α) : Prop := many ∉ p ∧ ∀ c, one = some c → c ∉ p

theorem Plain.tail (h : Plain many one (c :: p)) : Plain many one p :=
  ⟨fun hm => h.1 (List.mem_cons_of_mem c hm), fun d hd hm => h.2 d hd (List.mem_cons_of_mem c hm)⟩

theorem matches_plain_append (hp : Plain many one p) :
    Matches many one (p ++ q) s ↔ ∃ t, s = p ++ t ∧ Matches many one q t := by
  induction p generalizing s with
  | nil => simp
  | cons c p ih =>
    constructor
    · intro h
      cases h with
      | self hc h =>
        obtain ⟨t, rfl, ht⟩ := (ih hp.tail).mp h
        exact ⟨t, rfl, ht⟩
      | one hc h => exact absurd List.mem_cons_self (hp.2 _ hc)
      | many u h => exact absurd List.mem_cons_self hp.1
    · rintro ⟨t, rfl, ht⟩
      refine .self ?_ ((ih hp.tail).mpr ⟨t, rfl, ht⟩)
      rintro rfl
      exact hp.1 List.mem_cons_self

theorem matches_many_cons : Matches many one (many :: p) s ↔ ∃ u t, s = u ++ t ∧ Matches many one p t := by
  constructor
  · intro h
    cases h with
    | self hc h => exact absurd rfl hc
    | @one _ d _ s hc h => exact ⟨[d], s, rfl, h⟩
    | @many _ s u h => exact ⟨u, s, rfl, h⟩
  · rintro ⟨u, t, rfl, ht⟩
    exact .many u ht

theorem matches_many : Matches many one [many] s := by
  have h : Matches many one [many] (s ++ []) := .many s .nil
  rwa [List.append_nil] at h

theorem matches_wrapped (hp : Plain many one p) : Matches many one (many :: (p ++ [many])) s ↔ p <:+: s := by
  rw [matches_many_cons]
  constructor
  · rintro ⟨u, t, rfl, h⟩
    obtain ⟨w, rfl, -⟩ := (matches_plain_append hp).mp h
    exact ⟨u, w, List.append_assoc u p w⟩
  · rintro ⟨u, w, rfl⟩
    exact ⟨u, p ++ w, List.append_assoc u p w, (matches_plain_append hp).mpr ⟨w, rfl, matches_many⟩⟩

theorem Matches.append_many (h : Matches many one p s) : Matches many one (p ++ [many]) s := by
  induction h with
  | nil => exact matches_many
  | self hc _ ih => exact .self hc ih
  | one hc _ ih => exact .one hc ih
  | many u _ ih => exact .many u ih

variable [DecidableEq α]

/-- A text the pattern matches: nothing where it has `many`, `d` where it has `one`. -/
def sample (many : α) (one : Option α) (d : α) (p : List α) : List α :=
  (p.filter (· ≠ many)).map fun c => if one = some c then d else c

theorem matches_sample (d : α) (p : List α) : Matches many one p (sample many one d p) := by
  induction p with
  | nil => exact .nil
  | cons c p ih =>
    by_cases hc : c = many
    · subst hc
      have h : Matches c one (c :: p) ([] ++ sample c one d p) := .many [] ih
      simpa [sample] using h
    · by_cases hone : one = some c
      · have h : Matches many one (c :: p) (d :: sample many one d p) := .one hone ih
        simpa [sample, hc, hone] using h
      · have h : Matches many one (c :: p) (c :: sample many one d p) := .self hc ih
        simpa [sample, hc, hone] using h

theorem not_infix_sample {d : α} (hd : one ≠ some d) (hp : ¬ Plain many one p) :
    ¬ p <:+: sample many one d p := by
  intro h
  have hlen : p.length ≤ (p.filter (· ≠ many)).length := by
    simpa only [sample, List.length_map] using h.length_le
  have hfilter : p.filter (· ≠ many) = p := List.filter_sublist.eq_of_length_le hlen
  have heq : p = sample many one d p := h.eq_of_length (by simp only [sample, List.length_map, hfilter])
  refine hp ⟨fun hm => ?_, fun c hc hm => ?_⟩
  · rw [← hfilter] at hm
    simpa using List.of_mem_filter hm
  · rw [heq, sample] at hm
    obtain ⟨b, -, hb⟩ := List.mem_map.mp hm
    split at hb
    · exact hd (hc.trans (congrArg some hb.symm))
    · next hne => exact hne (hc.trans (congrArg some hb.symm))

/-- Searching what stands between two signs for any sequence is matching the pattern exactly when
no character in between stands for another. -/
theorem search_iff (p : List α) {d : α} (hd : one ≠ some d) :
    (∀ s, p <:+: s ↔ Matches many one (many :: (p ++ [many])) s) ↔ Plain many one p := by
  constructor
  · intro h
    by_contra hp
    refine not_infix_sample hd hp ((h _).mpr ?_)
    exact .many [] (matches_sample d p).append_many
  · exact fun hp s => (matches_wrapped hp).symm

end LevelPgServer.Wildcard
