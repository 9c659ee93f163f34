import LevelPgServer.Lib.ThreeWay
import LevelPgServer.Lib.WeakOrder

/-! A sorted list cut where its members stop to tie. -/

namespace LevelPgServer.WeakOrder

variable {α : Type}

/-- The lists are the classes of the members of `l`, each as it stands in `l`. -/
structure Classes (same : α → α → Bool) (l : List α) (gs : List (List α)) : Prop where
  flatten : gs.flatten = l
  ne_nil : [] ∉ gs
  eq_filter : ∀ g ∈ gs, ∀ a ∈ g, g = l.filter (same a)
  apart : gs.Pairwise fun g g' => ∀ a ∈ g, ∀ b ∈ g', same a b = false

/-- The pieces of a sorted list: ties in a piece, and what stands in a later piece is greater. -/
structure Cut (c : α → α → Ordering) (l : List α) (gs : List (List α)) : Prop where
  flatten : gs.flatten = l
  ne_nil : [] ∉ gs
  tie : ∀ g ∈ gs, ∀ a ∈ g, ∀ b ∈ g, c a b = .eq
  before : gs.Pairwise fun g g' => ∀ a ∈ g, ∀ b ∈ g', c a b = .lt

namespace Orders

variable {c : α → α → Ordering} {l : List α}

theorem refl (h : Orders c l) {a : α} (ha : a ∈ l) : c a a = .eq := by
  have hswap := h.swap a ha a ha
  cases hc : c a a with
  | eq => rfl
  | lt => rw [hc] at hswap; cases hswap
  | gt => rw [hc] at hswap; cases hswap

theorem eq_symm (h : Orders c l) {a b : α} (ha : a ∈ l) (hb : b ∈ l) (hab : c a b = .eq) : c b a = .eq := by
  rw [h.swap a ha b hb, hab]
  rfl

theorem sub {l' : List α} (h : Orders c l) (hsub : ∀ a ∈ l', a ∈ l) : Orders c l' where
  swap a ha b hb := h.swap a (hsub a ha) b (hsub b hb)
  trans a ha b hb d hd := h.trans a (hsub a ha) b (hsub b hb) d (hsub d hd)

end Orders

namespace Cut

variable {c : α → α → Ordering} {l g : List α} {gs : List (List α)} {a b : α}

theorem nil : Cut c [] [] := ⟨rfl, by simp, by simp, .nil⟩

theorem mem (h : Cut c l gs) {g : List α} (hg : g ∈ gs) {x : α} (hx : x ∈ g) : x ∈ l := by
  rw [← h.flatten]
  exact List.mem_flatten_of_mem hg hx

theorem singleton (haa : c a a = .eq) : Cut c [a] [[a]] where
  flatten := rfl
  ne_nil := by simp
  tie g hg x hx y hy := by
    obtain rfl := List.mem_singleton.mp hg
    rw [List.mem_singleton.mp hx, List.mem_singleton.mp hy, haa]
  before := List.pairwise_singleton _ _

/-- A member that ties with the first one goes in front of its piece. -/
theorem cons_tie (h : Cut c (b :: l) ((b :: g) :: gs)) (ho : Orders c (a :: b :: l)) (hab : c a b = .eq) :
    Cut c (a :: b :: l) ((a :: b :: g) :: gs) where
  flatten := congrArg (a :: ·) h.flatten
  ne_nil := by simpa using h.ne_nil
  tie g' hg' := by
    have hin : ∀ x ∈ b :: g, x ∈ a :: b :: l := fun x hx => List.mem_cons_of_mem a (h.mem List.mem_cons_self hx)
    have ha : a ∈ a :: b :: l := List.mem_cons_self
    have hfirst : ∀ x ∈ b :: g, c a x = .eq := fun x hx =>
      ho.eq_trans ha (hin b List.mem_cons_self) (hin x hx) hab (h.tie _ List.mem_cons_self b List.mem_cons_self x hx)
    obtain rfl | hg' := List.mem_cons.mp hg'
    · intro x hx y hy
      obtain rfl | hx' := List.mem_cons.mp hx
      · obtain rfl | hy' := List.mem_cons.mp hy
        · exact ho.refl ha
        · exact hfirst y hy'
      · obtain rfl | hy' := List.mem_cons.mp hy
        · exact ho.eq_symm ha (hin x hx') (hfirst x hx')
        · exact h.tie _ List.mem_cons_self x hx' y hy'
    · exact h.tie g' (List.mem_cons_of_mem _ hg')
  before := by
    obtain ⟨hbefore, hrest⟩ := List.pairwise_cons.mp h.before
    refine List.pairwise_cons.mpr ⟨fun g' hg' x hx y hy => ?_, hrest⟩
    obtain rfl | hx := List.mem_cons.mp hx
    · have hy' : y ∈ b :: l := h.mem (List.mem_cons_of_mem _ hg') hy
      exact ho.lt_of_le_of_lt List.mem_cons_self (by simp) (List.mem_cons_of_mem x hy') (by simp [hab])
        (hbefore g' hg' b List.mem_cons_self y hy)
    · exact hbefore g' hg' x hx y hy

theorem cons_lt (h : Cut c (b :: l) gs) (ho : Orders c (a :: b :: l)) (hs : (b :: l).Pairwise (fun x y => c x y ≠ .gt))
    (hab : c a b = .lt) : Cut c (a :: b :: l) ([a] :: gs) where
  flatten := congrArg (a :: ·) h.flatten
  ne_nil := by simpa using h.ne_nil
  tie g' hg' := by
    obtain rfl | hg' := List.mem_cons.mp hg'
    · exact (singleton (ho.refl List.mem_cons_self)).tie _ List.mem_cons_self
    · exact h.tie g' hg'
  before := by
    refine List.pairwise_cons.mpr ⟨fun g' hg' x hx y hy => ?_, h.before⟩
    obtain rfl := List.mem_singleton.mp hx
    have hy' : y ∈ b :: l := h.mem hg' hy
    obtain rfl | hyl := List.mem_cons.mp hy'
    · exact hab
    · exact ho.lt_of_lt_of_le List.mem_cons_self (by simp) (List.mem_cons_of_mem x hy') hab
        ((List.pairwise_cons.mp hs).1 y hyl)

theorem classes (h : Cut c l gs) (ho : Orders c l) : Classes (fun a b => c a b == .eq) l gs where
  flatten := h.flatten
  ne_nil := h.ne_nil
  eq_filter g hg a ha := by
    obtain ⟨s, t, rfl⟩ := List.append_of_mem hg
    obtain ⟨-, hgt, hsg⟩ := List.pairwise_append.mp h.before
    have hmem : ∀ g' ∈ s ++ g :: t, ∀ x ∈ g', x ∈ l := fun g' hg' x hx => h.mem hg' hx
    have hleft : s.flatten.filter (fun b => c a b == .eq) = [] := by
      refine List.filter_eq_nil_iff.mpr fun x hx heq => ?_
      obtain ⟨g', hg', hx'⟩ := List.mem_flatten.mp hx
      have hlt := hsg g' hg' g List.mem_cons_self x hx' a ha
      have hx'' := hmem g' (by simp [hg']) x hx'
      rw [ho.eq_symm (hmem g (by simp) a ha) hx'' (beq_iff_eq.mp heq)] at hlt
      cases hlt
    have hright : t.flatten.filter (fun b => c a b == .eq) = [] := by
      refine List.filter_eq_nil_iff.mpr fun x hx heq => ?_
      obtain ⟨g', hg', hx'⟩ := List.mem_flatten.mp hx
      have hlt := (List.pairwise_cons.mp hgt).1 g' hg' a ha x hx'
      rw [beq_iff_eq.mp heq] at hlt
      cases hlt
    have hpiece : g.filter (fun b => c a b == .eq) = g :=
      List.filter_eq_self.mpr fun x hx => beq_iff_eq.mpr (h.tie g hg a ha x hx)
    rw [← h.flatten, List.flatten_append, List.flatten_cons, List.filter_append, List.filter_append,
      hleft, hright, hpiece,
      List.nil_append, List.append_nil]
  apart := h.before.imp fun hlt a ha b hb => by rw [hlt a ha b hb]; rfl

end Cut

namespace Classes

variable {same same' : α → α → Bool} {l : List α} {gs : List (List α)}

theorem congr (h : Classes same l gs) (heq : ∀ a ∈ l, ∀ b ∈ l, same a b = same' a b) : Classes same' l gs := by
  have hmem : ∀ g ∈ gs, ∀ x ∈ g, x ∈ l := fun g hg x hx => h.flatten ▸ List.mem_flatten_of_mem hg hx
  refine ⟨h.flatten, h.ne_nil, fun g hg a ha => (h.eq_filter g hg a ha).trans ?_, ?_⟩
  · exact List.filter_congr fun b hb => heq a (hmem g hg a ha) b hb
  · refine h.apart.imp_of_mem fun hg hg' hapart a ha b hb => ?_
    rw [← heq a (hmem _ hg a ha) b (hmem _ hg' b hb)]
    exact hapart a ha b hb

end Classes

theorem lex_eq_iff {cs : List (α → α → Ordering)} {a b : α} : lex cs a b = .eq ↔ ∀ c ∈ cs, c a b = .eq := by
  induction cs with
  | nil => simp [lex]
  | cons c cs ih => rw [lex, Ordering.then_eq_eq, ih, List.forall_mem_cons]

theorem lex_range_ne_gt {L : Type} [LinearOrder L] {c : Nat → α → α → Ordering} {a b : α} {xs ys : List L}
    (hlt : xs < ys)
    {n : Nat} (hx : n ≤ xs.length) (hy : n ≤ ys.length)
    (hc : ∀ i x y, i < n → xs[i]? = some x → ys[i]? = some y → c i a b = ThreeWay.order x y) :
    lex ((List.range n).map c) a b ≠ .gt := by
  induction n generalizing c xs ys with
  | zero => simp [lex]
  | succ n ih =>
    cases xs with
    | nil => exact absurd hx (Nat.not_succ_le_zero n)
    | cons x xs =>
      cases ys with
      | nil => exact absurd hy (Nat.not_succ_le_zero n)
      | cons y ys =>
        rw [List.range_succ_eq_map, List.map_cons, lex, hc 0 x y (Nat.succ_pos n) rfl rfl, List.map_map]
        obtain h | ⟨rfl, h⟩ := List.cons_lt_cons_iff.mp hlt
        · rw [ThreeWay.order_of_lt h]
          simp
        · rw [ThreeWay.order_self]
          exact ih h (Nat.le_of_succ_le_succ hx) (Nat.le_of_succ_le_succ hy) fun i u v hi hu hv =>
            hc (i + 1) u v (Nat.succ_lt_succ hi) hu hv

end LevelPgServer.WeakOrder
