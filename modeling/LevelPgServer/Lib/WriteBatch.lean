import LevelPgServer.Lib.OrderedMap
import LevelPgServer.Lib.SortedFilter

namespace LevelPgServer.WriteBatch

open ThreeWay OrderedMap

variable {K V L : Type}

inductive Op (K V : Type)
  | put (key : K) (value : V)
  | remove (key : K)
  deriving DecidableEq

namespace Op

def key : Op K V → K
  | put k _ => k
  | remove k => k

def entry : Op K V → Option (K × V)
  | put k v => some (k, v)
  | remove _ => none

end Op

def remove (cmp : K → K → Ordering) (k : K) (es : List (K × V)) : List (K × V) :=
  es.filter (fun e => cmp k e.1 != .eq)

def apply (cmp : K → K → Ordering) (op : Op K V) (es : List (K × V)) : List (K × V) :=
  match op with
  | .put k v => put cmp k v es
  | .remove k => remove cmp k es

def applyAll (cmp : K → K → Ordering) (ops : List (Op K V)) (es : List (K × V)) : List (K × V) :=
  ops.foldl (fun es op => apply cmp op es) es

@[simp] theorem applyAll_nil (cmp : K → K → Ordering) (es : List (K × V)) : applyAll cmp [] es = es := rfl

theorem applyAll_cons (cmp : K → K → Ordering) (op : Op K V) (ops : List (Op K V)) (es : List (K × V)) :
    applyAll cmp (op :: ops) es = applyAll cmp ops (apply cmp op es) := rfl

theorem applyAll_append (cmp : K → K → Ordering) (as bs : List (Op K V)) (es : List (K × V)) :
    applyAll cmp (as ++ bs) es = applyAll cmp bs (applyAll cmp as es) :=
  List.foldl_append

theorem applyAll_puts (cmp : K → K → Ordering) (batch : List (K × V)) (es : List (K × V)) :
    applyAll cmp (batch.map (fun p => .put p.1 p.2)) es = putAll cmp batch es := by
  rw [applyAll, List.foldl_map]
  rfl

/-- What a batch of removals leaves is what no key of it is compared equal with. -/
theorem mem_applyAll_removes {cmp : K → K → Ordering} {ks : List K} {es : List (K × V)} {e : K × V} :
    e ∈ applyAll cmp (ks.map .remove) es ↔ e ∈ es ∧ ∀ k ∈ ks, cmp k e.1 ≠ .eq := by
  induction ks generalizing es with
  | nil => simp
  | cons k ks ih =>
    rw [List.map_cons, applyAll_cons, ih, apply, remove, List.mem_filter, List.forall_mem_cons, bne_iff_ne, and_assoc]

theorem put_ne_nil (cmp : K → K → Ordering) (k : K) (v : V) (es : List (K × V)) : put cmp k v es ≠ [] := by
  cases es with
  | nil => simp [put]
  | cons e es =>
    rw [put]
    split <;> simp

/-- A non-empty batch changes some map, as long as a key that it removes is equal to itself. -/
theorem exists_applyAll_ne (cmp : K → K → Ordering) {ops : List (Op K V)} (hops : ops ≠ [])
    (hrefl : ∀ op ∈ ops, op.entry = none → cmp op.key op.key = .eq) (v : V) : ∃ es, applyAll cmp ops es ≠ es := by
  obtain ⟨as, op, rfl⟩ := (List.eq_nil_or_concat' ops).resolve_left hops
  cases op with
  | put k w =>
    refine ⟨[], fun h => ?_⟩
    rw [applyAll_append, applyAll_cons, applyAll_nil, apply] at h
    exact put_ne_nil cmp k w _ h
  | remove k =>
    refine ⟨[(k, v)], fun h => ?_⟩
    have hmem : (k, v) ∈ applyAll cmp (as ++ [.remove k]) [(k, v)] := by simp [h]
    rw [applyAll_append] at hmem
    have hne := (List.mem_filter.mp hmem).2
    have heq : cmp k k = .eq := hrefl (.remove k) (by simp) rfl
    simp [heq] at hne

section Laws

variable [LinearOrder L] {cmp : K → K → Ordering} {f : K → L} {S : K → Prop}

theorem mem_remove (hc : Compares cmp f S) {k : K} (hk : S k) {es : List (K × V)} (hS : ∀ e ∈ es, S e.1) (e : K × V) :
    e ∈ remove cmp k es ↔ e ∈ es ∧ f e.1 ≠ f k := by
  rw [remove, List.mem_filter]
  refine and_congr_right fun he => ?_
  rw [hc k e.1 hk (hS e he), bne_iff_ne, ne_eq, order_eq_eq]
  exact not_congr eq_comm

def lastAt (f : K → L) (ops : List (Op K V)) (r : L) : Option (Op K V) := ops.findRev? (fun op => f op.key == r)

theorem lastAt_cons (f : K → L) (op : Op K V) (ops : List (Op K V)) (r : L) :
    lastAt f (op :: ops) r = (lastAt f ops r).or (if f op.key = r then some op else none) := by
  simp [lastAt, List.findRev?_eq_find?_reverse, List.find?_append, List.find?_singleton]

theorem lastAt_eq_none {ops : List (Op K V)} {r : L} : lastAt f ops r = none ↔ ∀ op ∈ ops, f op.key ≠ r := by
  simp [lastAt, List.findRev?_eq_find?_reverse]

theorem mem_of_lastAt {ops : List (Op K V)} {r : L} {op : Op K V} (h : lastAt f ops r = some op) :
    op ∈ ops ∧ f op.key = r := by
  rw [lastAt, List.findRev?_eq_find?_reverse] at h
  exact ⟨List.mem_reverse.mp (List.mem_of_find?_eq_some h), by simpa using List.find?_some h⟩

theorem mem_apply (hc : Compares cmp f S) {op : Op K V} (hop : S op.key) {es : List (K × V)} (hS : ∀ e ∈ es, S e.1)
    (ho : Ordered f es) (e : K × V) : e ∈ apply cmp op es ↔ op.entry = some e ∨ (e ∈ es ∧ f e.1 ≠ f op.key) := by
  cases op with
  | put k v =>
    refine (mem_put hc hop v hS ho e).trans (or_congr_left ?_)
    exact ⟨fun h => h ▸ rfl, fun h => (Option.some.inj h).symm⟩
  | remove k =>
    refine (mem_remove hc hop hS e).trans ?_
    simp [Op.entry, Op.key]

theorem Ordered.apply (hc : Compares cmp f S) {op : Op K V} (hop : S op.key) {es : List (K × V)}
    (hS : ∀ e ∈ es, S e.1) (ho : Ordered f es) : Ordered f (apply cmp op es) := by
  cases op with
  | put k v => exact ho.put hc hop v hS
  | remove k => exact ho.filter _

/-- After a batch the map is in order and holds, under every key, what the last operation
on it has left, or what was there before if there was none. -/
theorem applyAll_spec (hc : Compares cmp f S) {ops : List (Op K V)} {es : List (K × V)} (hops : ∀ op ∈ ops, S op.key)
    (hS : ∀ e ∈ es, S e.1) (ho : Ordered f es) :
    Ordered f (applyAll cmp ops es) ∧ (∀ e ∈ applyAll cmp ops es, S e.1) ∧
      ∀ e, e ∈ applyAll cmp ops es ↔
        (lastAt f ops (f e.1)).bind Op.entry = some e ∨ (lastAt f ops (f e.1) = none ∧ e ∈ es) := by
  induction ops generalizing es with
  | nil => exact ⟨ho, hS, fun e => by simp [lastAt]⟩
  | cons op ops ih =>
    have hop : S op.key := hops op (by simp)
    have hS' : ∀ e ∈ apply cmp op es, S e.1 := by
      intro e he
      obtain h | ⟨he, -⟩ := (mem_apply hc hop hS ho e).mp he
      · cases op with
        | put k v => cases h; exact hop
        | remove k => cases h
      · exact hS e he
    obtain ⟨h1, h2, h3⟩ := ih (fun o h => hops o (by simp [h])) hS' (Ordered.apply hc hop hS ho)
    refine ⟨h1, h2, fun e => (h3 e).trans ?_⟩
    rw [lastAt_cons, mem_apply hc hop hS ho]
    cases hr : lastAt f ops (f e.1) with
    | some o => simp
    | none =>
      by_cases hpe : f op.key = f e.1
      · simp [hpe]
      · have hne : op.entry ≠ some e := by
          intro h
          cases op with
          | put k v => cases h; exact hpe rfl
          | remove k => cases h
        simp [hpe, hne, Ne.symm hpe]

theorem eq_of_mem_iff {es es' : List (K × V)} (ho : Ordered f es) (ho' : Ordered f es') (h : ∀ e, e ∈ es ↔ e ∈ es') :
    es = es' := by
  exact SortedFilter.eq_of_mem_iff (f := fun e : K × V => f e.1) ho ho' h

theorem applyAll_comm (hc : Compares cmp f S) {as bs : List (Op K V)} {es : List (K × V)} (has : ∀ op ∈ as, S op.key)
    (hbs : ∀ op ∈ bs, S op.key) (hS : ∀ e ∈ es, S e.1) (ho : Ordered f es)
    (hne : ∀ a ∈ as, ∀ b ∈ bs, f a.key ≠ f b.key) :
    applyAll cmp bs (applyAll cmp as es) = applyAll cmp as (applyAll cmp bs es) := by
  obtain ⟨ha1, ha2, ha3⟩ := applyAll_spec hc has hS ho
  obtain ⟨hb1, hb2, hb3⟩ := applyAll_spec hc hbs hS ho
  obtain ⟨hab1, -, hab3⟩ := applyAll_spec hc hbs ha2 ha1
  obtain ⟨hba1, -, hba3⟩ := applyAll_spec hc has hb2 hb1
  apply eq_of_mem_iff hab1 hba1
  intro e
  rw [hab3, hba3, ha3, hb3]
  cases hla : lastAt f as (f e.1) with
  | none => simp
  | some a =>
    obtain ⟨ha, hfa⟩ := mem_of_lastAt hla
    have hlb : lastAt f bs (f e.1) = none := lastAt_eq_none.mpr fun b hb hfb => hne a ha b hb (hfa.trans hfb.symm)
    simp [hlb]

theorem applyAll_removes (hc : Compares cmp f S) {ks : List K} {es : List (K × V)} (hks : ∀ k ∈ ks, S k)
    (hS : ∀ e ∈ es, S e.1) (ho : Ordered f es) {g : K × V → Bool}
    (hg : ∀ e ∈ es, g e = true ↔ ∀ k ∈ ks, f k ≠ f e.1) : applyAll cmp (ks.map .remove) es = es.filter g := by
  have hops : ∀ op ∈ ks.map (.remove : K → Op K V), S op.key := by
    intro op hop
    obtain ⟨k, hk, rfl⟩ := List.mem_map.mp hop
    exact hks k hk
  obtain ⟨h1, -, h3⟩ := applyAll_spec hc hops hS ho
  apply eq_of_mem_iff h1 (ho.filter _)
  intro e
  rw [h3, List.mem_filter]
  have hentry : (lastAt f (ks.map (.remove : K → Op K V)) (f e.1)).bind Op.entry ≠ some e := by
    cases hl : lastAt f (ks.map (.remove : K → Op K V)) (f e.1) with
    | none => simp
    | some op =>
      obtain ⟨hop, -⟩ := mem_of_lastAt hl
      obtain ⟨k, -, rfl⟩ := List.mem_map.mp hop
      simp [Op.entry]
  have hnone : lastAt f (ks.map (.remove : K → Op K V)) (f e.1) = none ↔ ∀ k ∈ ks, f k ≠ f e.1 := by
    simp [lastAt_eq_none, Op.key]
  rw [or_iff_right hentry, hnone, and_comm]
  exact and_congr_right fun he => (hg e he).symm

end Laws

end LevelPgServer.WriteBatch
