import Mathlib.Tactic

namespace LevelPgServer.WeakOrder

variable {α β : Type}

/-- A three-way comparison that orders the members of a list, up to ties. -/
structure Orders (c : α → α → Ordering) (l : List α) : Prop where
  swap : ∀ a ∈ l, ∀ b ∈ l, c b a = (c a b).swap
  trans : ∀ a ∈ l, ∀ b ∈ l, ∀ d ∈ l, c a b ≠ .gt → c b d ≠ .gt → c a d ≠ .gt

/-- Comparisons one after the other: the first that is not a tie decides. -/
def lex : List (α → α → Ordering) → α → α → Ordering
  | [], _, _ => .eq
  | c :: cs, a, b => (c a b).then (lex cs a b)

/-- How many members stand before `a`. -/
def below (c : α → α → Ordering) (l : List α) (a : α) : Nat := l.countP (fun x => c x a == .lt)

namespace Orders

variable {c d : α → α → Ordering} {l : List α}

theorem reverse (h : Orders c l) : Orders (fun a b => c b a) l where
  swap a ha b hb := h.swap b hb a ha
  trans a ha b hb e he h1 h2 := h.trans e he b hb a ha h2 h1

theorem comap {l' : List β} (h : Orders c l) {g : β → α} (hg : ∀ b ∈ l', g b ∈ l) :
    Orders (fun a b => c (g a) (g b)) l' where
  swap a ha b hb := h.swap (g a) (hg a ha) (g b) (hg b hb)
  trans a ha b hb e he := h.trans (g a) (hg a ha) (g b) (hg b hb) (g e) (hg e he)

theorem lt_of_lt_of_le (h : Orders c l) {a b e : α} (ha : a ∈ l) (hb : b ∈ l) (he : e ∈ l) (h1 : c a b = .lt)
    (h2 : c b e ≠ .gt) : c a e = .lt := by
  have hae : c a e ≠ .gt := h.trans a ha b hb e he (by simp [h1]) h2
  cases hc : c a e with
  | lt => rfl
  | gt => exact absurd hc hae
  | eq =>
    have hea : c e a ≠ .gt := by simp [h.swap a ha e he, hc]
    have hba : c b a ≠ .gt := h.trans b hb e he a ha h2 hea
    exact absurd (by rw [h.swap a ha b hb, h1]; rfl) hba

theorem lt_of_le_of_lt (h : Orders c l) {a b e : α} (ha : a ∈ l) (hb : b ∈ l) (he : e ∈ l) (h1 : c a b ≠ .gt)
    (h2 : c b e = .lt) : c a e = .lt := by
  have hae : c a e ≠ .gt := h.trans a ha b hb e he h1 (by simp [h2])
  cases hc : c a e with
  | lt => rfl
  | gt => exact absurd hc hae
  | eq =>
    have hea : c e a ≠ .gt := by simp [h.swap a ha e he, hc]
    have heb : c e b ≠ .gt := h.trans e he a ha b hb hea h1
    exact absurd (by rw [h.swap b hb e he, h2]; rfl) heb

theorem eq_trans (h : Orders c l) {a b e : α} (ha : a ∈ l) (hb : b ∈ l) (he : e ∈ l) (h1 : c a b = .eq)
    (h2 : c b e = .eq) : c a e = .eq := by
  have hae : c a e ≠ .gt := h.trans a ha b hb e he (by simp [h1]) (by simp [h2])
  have hea : c e a ≠ .gt :=
    h.trans e he b hb a ha (by simp [h.swap b hb e he, h2]) (by simp [h.swap a ha b hb, h1])
  cases hc : c a e with
  | eq => rfl
  | gt => exact absurd hc hae
  | lt => exact absurd (by rw [h.swap a ha e he, hc]; rfl) hea

theorem of_then (hc : Orders c l) (hd : Orders d l) : Orders (fun a b => (c a b).then (d a b)) l where
  swap a ha b hb := by rw [hc.swap a ha b hb, hd.swap a ha b hb, Ordering.swap_then]
  trans a ha b hb e he h1 h2 := by
    cases h3 : c a b with
    | gt => exact absurd (by simp [h3]) h1
    | lt =>
      have hbe : c b e ≠ .gt := by
        intro hgt
        exact h2 (by simp [hgt])
      simp [hc.lt_of_lt_of_le ha hb he h3 hbe]
    | eq =>
      cases h4 : c b e with
      | gt => exact absurd (by simp [h4]) h2
      | lt => simp [hc.lt_of_le_of_lt ha hb he (by simp [h3]) h4]
      | eq =>
        rw [hc.eq_trans ha hb he h3 h4]
        exact hd.trans a ha b hb e he (by simpa [h3] using h1) (by simpa [h4] using h2)

theorem lex {cs : List (α → α → Ordering)} (h : ∀ c ∈ cs, Orders c l) : Orders (lex cs) l := by
  induction cs with
  | nil => exact ⟨fun _ _ _ _ => rfl, fun _ _ _ _ _ _ _ _ => by simp [WeakOrder.lex]⟩
  | cons c cs ih => exact (h c (by simp)).of_then (ih fun d hd => h d (by simp [hd]))

theorem lt_iff_below (h : Orders c l) {a b : α} (ha : a ∈ l) (hb : b ∈ l) :
    c a b = .lt ↔ below c l a < below c l b := by
  constructor
  · intro hab
    have hsub : ∀ x ∈ l, (c x a == .lt) = true → (c x b == .lt) = true := by
      intro x hx hxa
      exact beq_iff_eq.mpr (h.lt_of_lt_of_le hx ha hb (beq_iff_eq.mp hxa) (by simp [hab]))
    refine lt_of_le_of_ne (List.countP_mono_left hsub) fun heq => ?_
    have haa : c a a = .lt := by
      obtain ⟨s, t, rfl⟩ := List.append_of_mem ha
      have hs := List.countP_mono_left fun x hx => hsub x (List.mem_append_left _ hx)
      have ht := List.countP_mono_left fun x hx => hsub x (List.mem_append_right _ (List.mem_cons_of_mem _ hx))
      by_contra hne
      simp [below, hab, hne] at heq
      omega
    have := h.swap a ha a ha
    rw [haa] at this
    cases this
  · intro hlt
    by_contra hne
    refine absurd hlt (not_lt.mpr (List.countP_mono_left fun x hx hxb => ?_))
    have hba : c b a ≠ .gt := by
      intro hgt
      rw [h.swap b hb a ha, hgt] at hne
      exact hne rfl
    exact beq_iff_eq.mpr (h.lt_of_lt_of_le hx hb ha (beq_iff_eq.mp hxb) hba)

end Orders

theorem exists_of_forall₂ {R : α → β → Prop} {as : List α} {bs : List β} (h : List.Forall₂ R as bs) {a : α}
    (ha : a ∈ as) : ∃ b ∈ bs, R a b := by
  induction h with
  | nil => cases ha
  | @cons x y as bs hxy hrest ih =>
    obtain rfl | ha := List.mem_cons.mp ha
    · exact ⟨y, by simp, hxy⟩
    · obtain ⟨b, hb, hr⟩ := ih ha
      exact ⟨b, by simp [hb], hr⟩

/-- A property of the pairs of one list carries over to a list that matches it. -/
theorem pairwise_of_forall₂ {R : α → β → Prop} {S : β → β → Prop} {T : α → α → Prop} {as : List α} {bs : List β}
    (h : List.Forall₂ R as bs) (hp : bs.Pairwise S)
    (hst : ∀ a ∈ as, ∀ a' ∈ as, ∀ b ∈ bs, ∀ b' ∈ bs, R a b → R a' b' → S b b' → T a a') : as.Pairwise T := by
  induction h with
  | nil => exact .nil
  | @cons a b as bs hab hrest ih =>
    refine List.pairwise_cons.mpr ⟨fun a' ha' => ?_, ih hp.of_cons fun x hx y hy z hz w hw => ?_⟩
    · obtain ⟨b', hb', hr⟩ := exists_of_forall₂ hrest ha'
      exact hst a (by simp) a' (by simp [ha']) b (by simp) b' (by simp [hb']) hab hr ((List.pairwise_cons.mp hp).1 b' hb')
    · exact hst x (by simp [hx]) y (by simp [hy]) z (by simp [hz]) w (by simp [hw])

end LevelPgServer.WeakOrder
