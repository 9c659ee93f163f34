import Mathlib.Tactic
import Mathlib.Data.List.Nodup

namespace LevelPgServer.SortedFilter

variable {α L : Type} [LinearOrder L] {f : α → L}

theorem eq_of_mem_iff {as bs : List α} (ha : as.Pairwise (fun a b => f a < f b))
    (hb : bs.Pairwise (fun a b => f a < f b)) (h : ∀ x, x ∈ as ↔ x ∈ bs) : as = bs := by
  have hna : as.Nodup := ha.imp fun hlt he => absurd (congrArg f he) hlt.ne
  have hnb : bs.Nodup := hb.imp fun hlt he => absurd (congrArg f he) hlt.ne
  refine @List.Perm.eq_of_pairwise _ (fun a b => f a < f b) _ _ (fun a b _ _ h1 h2 => absurd h1 h2.not_gt) ha hb ?_
  exact (List.perm_ext_iff_of_nodup hna hnb).mpr h

theorem eq_of_place_eq {es : List α} (he : es.Pairwise (fun a b => f a < f b)) {a b : α} (ha : a ∈ es) (hb : b ∈ es)
    (h : f a = f b) : a = b := by
  have hn : (es.map f).Nodup := List.pairwise_map.mpr (he.imp fun hlt => hlt.ne)
  exact List.inj_on_of_nodup_map hn ha hb h

/-- Selections from a sorted list, each before all later ones, make up one selection. -/
theorem flatMap_filter {ι : Type} {es : List α} (he : es.Pairwise (fun a b => f a < f b)) {is : List ι}
    {p : ι → α → Bool}
    (h : is.Pairwise (fun i j => ∀ a ∈ es, ∀ b ∈ es, p i a = true → p j b = true → f a < f b)) :
    is.flatMap (fun i => es.filter (p i)) = es.filter (fun e => is.any (fun i => p i e)) := by
  refine eq_of_mem_iff (f := f) ?_ (he.filter _) fun x => ?_
  · refine List.pairwise_flatMap.mpr ⟨fun i _ => he.filter _, h.imp fun {i j} hij a ha b hb => ?_⟩
    obtain ⟨ha, hpa⟩ := List.mem_filter.mp ha
    obtain ⟨hb, hpb⟩ := List.mem_filter.mp hb
    exact hij a ha b hb hpa hpb
  · simp only [List.mem_flatMap, List.mem_filter, List.any_eq_true]
    constructor
    · rintro ⟨i, hi, hx, hp⟩
      exact ⟨hx, i, hi, hp⟩
    · rintro ⟨hx, i, hi, hp⟩
      exact ⟨i, hi, hx, hp⟩

theorem disjoint_of_nodup {ι : Type} {es : List α} {is : List ι} {p : ι → α → Bool}
    (h : (is.flatMap (fun i => es.filter (p i))).Nodup) :
    is.Pairwise (fun i j => ∀ e ∈ es, p i e = true → p j e = false) := by
  refine (List.nodup_flatMap.mp h).2.imp fun {i j} hij e he hi => ?_
  by_contra hj
  exact hij (List.mem_filter.mpr ⟨he, hi⟩) (List.mem_filter.mpr ⟨he, by simpa using hj⟩)

/-- In a list whose first members have a property, they are all that have it. -/
theorem takeWhile_eq_filter {p : α → Bool} {es : List α} (h : es.Pairwise (fun a b => p b = true → p a = true)) :
    es.takeWhile p = es.filter p := by
  induction es with
  | nil => rfl
  | cons e es ih =>
    obtain ⟨hfirst, hrest⟩ := List.pairwise_cons.mp h
    cases he : p e with
    | true => rw [List.takeWhile_cons_of_pos he, List.filter_cons_of_pos he, ih hrest]
    | false =>
      rw [List.takeWhile_cons_of_neg (by simp [he]), List.filter_cons_of_neg (by simp [he]), eq_comm, List.filter_eq_nil_iff]
      intro a ha hp
      rw [hfirst a ha hp] at he
      cases he

end LevelPgServer.SortedFilter
