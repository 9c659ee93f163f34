import LevelPgServer.Lib.ThreeWay

namespace LevelPgServer.OrderedMap

open ThreeWay

variable {K V L : Type}

/-- Store `v` under `k` in entries kept in the order of `cmp`; a key equal to `k` gives way. -/
def put (cmp : K → K → Ordering) (k : K) (v : V) : List (K × V) → List (K × V)
  | [] => [(k, v)]
  | e :: es =>
    match cmp k e.1 with
    | .lt => (k, v) :: e :: es
    | .eq => (k, v) :: es
    | .gt => e :: put cmp k v es

def putAll (cmp : K → K → Ordering) (batch : List (K × V)) (es : List (K × V)) : List (K × V) :=
  batch.foldl (fun es p => put cmp p.1 p.2 es) es

def seek (cmp : K → K → Ordering) (start : K) (es : List (K × V)) : List (K × V) :=
  es.dropWhile (fun e => cmp e.1 start == .lt)

section Laws

variable [LinearOrder L] {cmp : K → K → Ordering} {f : K → L} {S : K → Prop}

/-- On the keys of `S`, `cmp` is the comparison of their places in `L`. -/
def Compares (cmp : K → K → Ordering) (f : K → L) (S : K → Prop) : Prop :=
  ∀ a b, S a → S b → cmp a b = order (f a) (f b)

def Ordered (f : K → L) (es : List (K × V)) : Prop := es.Pairwise (fun a b => f a.1 < f b.1)

theorem mem_put (hc : Compares cmp f S) {k : K} (hk : S k) (v : V) {es : List (K × V)} (hS : ∀ e ∈ es, S e.1)
    (ho : Ordered f es) (e : K × V) : e ∈ put cmp k v es ↔ e = (k, v) ∨ (e ∈ es ∧ f e.1 ≠ f k) := by
  induction es with
  | nil => simp [put]
  | cons a es ih =>
    have hS' : ∀ e ∈ es, S e.1 := fun e he => hS e (List.mem_cons_of_mem _ he)
    have hlt : ∀ b ∈ es, f a.1 < f b.1 := (List.pairwise_cons.mp ho).1
    rw [put, hc k a.1 hk (hS a (by simp))]
    rcases lt_trichotomy (f k) (f a.1) with h | h | h
    · rw [order_of_lt h]
      have hne : ∀ b ∈ a :: es, f b.1 ≠ f k := by
        intro b hb
        rcases List.mem_cons.mp hb with rfl | hb
        · exact h.ne'
        · exact (h.trans (hlt b hb)).ne'
      simp only [List.mem_cons] at hne ⊢
      constructor
      · rintro (rfl | hm)
        · exact .inl rfl
        · exact .inr ⟨hm, hne e hm⟩
      · rintro (rfl | ⟨hm, -⟩)
        · exact .inl rfl
        · exact .inr hm
    · rw [h, order_self]
      have hne : ∀ b ∈ es, f b.1 ≠ f k := fun b hb => h ▸ (hlt b hb).ne'
      simp only [List.mem_cons]
      constructor
      · rintro (rfl | hm)
        · exact .inl rfl
        · exact .inr ⟨.inr hm, h ▸ hne e hm⟩
      · rintro (rfl | ⟨rfl | hm, hne'⟩)
        · exact .inl rfl
        · exact absurd rfl hne'
        · exact .inr hm
    · rw [order_of_gt h, List.mem_cons, ih hS' ho.of_cons, List.mem_cons]
      constructor
      · rintro (rfl | rfl | ⟨hm, hne⟩)
        · exact .inr ⟨.inl rfl, h.ne⟩
        · exact .inl rfl
        · exact .inr ⟨.inr hm, hne⟩
      · rintro (rfl | ⟨rfl | hm, hne⟩)
        · exact .inr (.inl rfl)
        · exact .inl rfl
        · exact .inr (.inr ⟨hm, hne⟩)

theorem Ordered.put (hc : Compares cmp f S) {k : K} (hk : S k) (v : V) {es : List (K × V)}
    (hS : ∀ e ∈ es, S e.1) (ho : Ordered f es) : Ordered f (put cmp k v es) := by
  induction es with
  | nil => exact List.pairwise_singleton _ _
  | cons a es ih =>
    have hS' : ∀ e ∈ es, S e.1 := fun e he => hS e (List.mem_cons_of_mem _ he)
    have hlt : ∀ b ∈ es, f a.1 < f b.1 := (List.pairwise_cons.mp ho).1
    rw [OrderedMap.put, hc k a.1 hk (hS a (by simp))]
    rcases lt_trichotomy (f k) (f a.1) with h | h | h
    · rw [order_of_lt h]
      refine List.pairwise_cons.mpr ⟨fun b hb => ?_, ho⟩
      rcases List.mem_cons.mp hb with rfl | hb
      · exact h
      · exact h.trans (hlt b hb)
    · rw [h, order_self]
      exact List.pairwise_cons.mpr ⟨fun b hb => h ▸ hlt b hb, ho.of_cons⟩
    · rw [order_of_gt h]
      refine List.pairwise_cons.mpr ⟨fun b hb => ?_, ih hS' ho.of_cons⟩
      rcases (mem_put hc hk v hS' ho.of_cons b).mp hb with rfl | ⟨hb, -⟩
      · exact h
      · exact hlt b hb

def lastAt (f : K → L) (batch : List (K × V)) (r : L) : Option (K × V) :=
  batch.findRev? (fun p => f p.1 == r)

theorem lastAt_cons (f : K → L) (p : K × V) (batch : List (K × V)) (r : L) :
    lastAt f (p :: batch) r = (lastAt f batch r).or (if f p.1 = r then some p else none) := by
  simp [lastAt, List.findRev?_eq_find?_reverse, List.find?_append, List.find?_singleton]

/-- After a batch the map is in order and holds, under every key, what was stored
last: by the batch if it has the key, else before it. -/
theorem putAll_spec (hc : Compares cmp f S) {batch es : List (K × V)} (hb : ∀ p ∈ batch, S p.1)
    (hS : ∀ e ∈ es, S e.1) (ho : Ordered f es) :
    Ordered f (putAll cmp batch es) ∧ (∀ e ∈ putAll cmp batch es, S e.1) ∧
      ∀ e, e ∈ putAll cmp batch es ↔
        lastAt f batch (f e.1) = some e ∨ (lastAt f batch (f e.1) = none ∧ e ∈ es) := by
  induction batch generalizing es with
  | nil => exact ⟨ho, hS, fun e => by simp [putAll, lastAt]⟩
  | cons p batch ih =>
    have hp : S p.1 := hb p (by simp)
    have hS' : ∀ e ∈ put cmp p.1 p.2 es, S e.1 := by
      intro e he
      rcases (mem_put hc hp p.2 hS ho e).mp he with rfl | ⟨he, -⟩
      · exact hp
      · exact hS e he
    obtain ⟨h1, h2, h3⟩ := ih (fun q hq => hb q (by simp [hq])) hS' (ho.put hc hp p.2 hS)
    refine ⟨h1, h2, fun e => (h3 e).trans ?_⟩
    rw [lastAt_cons, mem_put hc hp p.2 hS ho]
    cases hr : lastAt f batch (f e.1) with
    | some q => simp
    | none =>
      by_cases hpe : f p.1 = f e.1
      · simp only [reduceCtorEq, false_or, true_and, Option.none_or, if_pos hpe, Option.some.injEq, false_and,
          or_false]
        constructor
        · rintro (rfl | ⟨-, hne⟩)
          · rfl
          · exact absurd hpe.symm hne
        · rintro rfl
          exact .inl rfl
      · simp only [reduceCtorEq, false_or, true_and, Option.none_or, if_neg hpe]
        constructor
        · rintro (rfl | ⟨hm, -⟩)
          · exact absurd rfl hpe
          · exact hm
        · intro hm
          exact .inr ⟨hm, Ne.symm hpe⟩

theorem seek_eq_filter {start : K} {s : L} {es : List (K × V)} (hc : ∀ e ∈ es, cmp e.1 start = order (f e.1) s)
    (ho : Ordered f es) : seek cmp start es = es.filter (fun e => decide (s ≤ f e.1)) := by
  induction es with
  | nil => rfl
  | cons a es ih =>
    have hlt : ∀ b ∈ es, f a.1 < f b.1 := (List.pairwise_cons.mp ho).1
    rw [seek, List.dropWhile_cons, hc a (by simp)]
    by_cases h : f a.1 < s
    · rw [order_of_lt h, if_pos (by decide), List.filter_cons_of_neg (by simpa using h)]
      exact ih (fun e he => hc e (by simp [he])) ho.of_cons
    · have hne : order (f a.1) s ≠ .lt := fun he => h (order_eq_lt.mp he)
      rw [if_neg (by simpa using hne), eq_comm, List.filter_eq_self]
      intro b hb
      rcases List.mem_cons.mp hb with rfl | hb
      · simpa using h
      · simpa using (not_lt.mp h).trans (hlt b hb).le

end Laws

end LevelPgServer.OrderedMap
