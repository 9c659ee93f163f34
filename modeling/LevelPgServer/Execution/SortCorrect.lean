import LevelPgServer.Execution.KeyOrder
import LevelPgServer.Execution.SortPlan
import LevelPgServer.Lib.WeakOrder

namespace LevelPgServer

open ParseNode LevelDBPlanBuilder ExceptRules WeakOrder

/-- What `std::sort` makes of a comparison that orders the members up to ties. -/
theorem LevelDBPlanBuilder.StdSort.sorted_of_orders {α : Type} (std : StdSort) {lt : α → α → Bool}
    {c : α → α → Ordering} {l : List α} (h : Orders c l)
    (hlt : ∀ a ∈ l, ∀ b ∈ l, lt a b = (c a b == .lt)) :
    (std.sort lt l).Pairwise (fun a b => c b a ≠ .lt) := by
  have hs := std.sorted lt l (below c l) fun a ha b hb => by
    rw [hlt a ha b hb, Bool.eq_iff_iff, beq_iff_eq, decide_eq_true_iff, h.lt_iff_below ha hb]
  refine hs.imp_of_mem fun ha hb hle hba => ?_
  have hmem := fun x => (std.perm lt l).mem_iff (a := x)
  exact absurd ((h.lt_iff_below ((hmem _).mp hb) ((hmem _).mp ha)).mp hba) (not_lt.mpr hle)

/-- The result of a comparison, read in the direction of the order. -/
def SortOrder.direct (order : SortOrder) (n : Ordering) : Ordering := if order = .descend then n.swap else n

namespace ExecutionBuffer

/-- Where a row lies: the number of its block, its place in there and its size. -/
structure Slot where
  block : Nat
  offset : Nat
  size : Nat
  deriving DecidableEq, Repr

def Slot.Apart (s t : Slot) : Prop :=
  s.block ≠ t.block ∨ s.offset + s.size ≤ t.offset ∨ t.offset + t.size ≤ s.offset

def allocateAll : List Nat → Nat → ExecutionBuffer → Fallible (List Slot)
  | [], _, _ => .ok []
  | size :: sizes, pool, b => do
    let (pool, b) ← b.doAlloc size pool
    let slots ← allocateAll sizes pool b
    return ⟨b.currentBlock, b.blockUsed - size, size⟩ :: slots

/-- A row goes behind the last one or to the start of the next block. -/
theorem doAlloc_spec {b b' : ExecutionBuffer} {size pool pool' : Nat} (h : b.doAlloc size pool = .ok (pool', b')) :
    b'.blockUsed ≤ blockSize ∧ (b'.currentBlock = b.currentBlock ∧ b'.blockUsed = b.blockUsed + size ∨
      b'.currentBlock = b.currentBlock + 1 ∧ b'.blockUsed = size) := by
  rw [doAlloc] at h
  split at h
  · cases h
  · next hsize =>
    dsimp only at h
    split at h
    · cases h
    · generalize hnext : (if blockSize < b.blockUsed + size then
          { b with used := b.used + size, currentBlock := b.currentBlock + 1, blockUsed := size }
        else { b with used := b.used + size, blockUsed := b.blockUsed + size }) = b1 at h
      have hb : b'.blockUsed = b1.blockUsed ∧ b'.currentBlock = b1.currentBlock := by
        split at h
        · cases pool with
          | zero => cases h
          | succ pool =>
            cases h
            exact ⟨rfl, rfl⟩
        · cases h
          exact ⟨rfl, rfl⟩
      rw [hb.1, hb.2, ← hnext]
      split
      · exact ⟨not_lt.mp hsize, .inr ⟨rfl, rfl⟩⟩
      · next hfull => exact ⟨not_lt.mp hfull, .inl ⟨rfl, rfl⟩⟩

theorem allocateAll_apart {sizes : List Nat} {pool : Nat} {b : ExecutionBuffer} {slots : List Slot}
    (h : allocateAll sizes pool b = .ok slots) :
    (∀ s ∈ slots, s.offset + s.size ≤ blockSize ∧
        (b.currentBlock < s.block ∨ s.block = b.currentBlock ∧ b.blockUsed ≤ s.offset)) ∧
      slots.Pairwise Slot.Apart := by
  induction sizes generalizing pool b slots with
  | nil =>
    cases h
    exact ⟨by simp, .nil⟩
  | cons size sizes ih =>
    obtain ⟨⟨pool', b'⟩, halloc, h⟩ := bind_eq_ok.mp h
    obtain ⟨rest, hrest, h⟩ := bind_eq_ok.mp h
    cases h
    obtain ⟨hb', hplace⟩ := doAlloc_spec halloc
    obtain ⟨hin, hapart⟩ := ih hrest
    refine ⟨fun s hs => ?_, List.pairwise_cons.mpr ⟨fun s hs => ?_, hapart⟩⟩
    · obtain rfl | hs := List.mem_cons.mp hs
      · dsimp only
        omega
      · have := hin s hs
        omega
    · have := hin s hs
      simp only [Slot.Apart]
      omega

end ExecutionBuffer

namespace SortPlan

variable {σ : Type} {conv : Conversions}

/-- The sort keys after a call of `ensureSortOrder`: one that is answered gives its key the direction it
asks for, one that is refused changes nothing. -/
def granted (keys : List (Nat × SortOrder)) (answer : Bool) (iSortIndex : Nat) (order : SortOrder) :
    List (Nat × SortOrder) :=
  if answer = true ∧ order ≠ .any then keys.modify iSortIndex (fun key => (key.1, order)) else keys

/-- What a caller has asked of a new sort before `begin`: each projection is listed with the child's
column and the index that was returned for it, each sort key with the child's column and the direction
that was asked for it, in `addSortSpecification` or later. -/
inductive Setup (add : σ → ParseNode → Fallible (Option Nat × σ)) :
    SortPlan → σ → List (Nat × Nat) → List (Nat × SortOrder) → Prop
  | start (child : σ) : Setup add {} child [] []
  | projection {plan plan' child child' columns keys pNode i j} (h : Setup add plan child columns keys)
      (hchild : add child pNode = .ok (some i, child'))
      (hsort : plan.addProjection (add child) pNode = .ok (some j, plan', child')) :
      Setup add plan' child' (columns ++ [(i, j)]) keys
  | noColumn {plan plan' child child' columns keys pNode} (h : Setup add plan child columns keys)
      (hsort : plan.addProjection (add child) pNode = .ok (none, plan', child')) :
      Setup add plan' child' columns keys
  | specification {plan plan' child child' columns keys pNode i order} (h : Setup add plan child columns keys)
      (hchild : add child pNode = .ok (some i, child'))
      (hsort : plan.addSortSpecification (add child) pNode order = .ok (plan', child')) :
      Setup add plan' child' columns (keys ++ [(i, order)])
  | ensure {plan child columns keys} (h : Setup add plan child columns keys) (iSortIndex : Nat) (sColumn : Bytes)
      (order : SortOrder) : Setup add (plan.ensureSortOrder iSortIndex sColumn order).2 child columns
        (granted keys (plan.ensureSortOrder iSortIndex sColumn order).1 iSortIndex order)

def Refers (plan : SortPlan) (index i : Nat) : Prop := (plan.proj[index]?).map SortProjection.subIndex = some i

/-- The specification stands for the key: its column and its direction. -/
def Specifies (plan : SortPlan) (key : Nat × SortOrder) (spec : SortSpec) : Prop :=
  plan.Refers spec.index key.1 ∧ spec.order = key.2

/-- The three numberings agree. -/
structure Aligned (plan : SortPlan) (columns : List (Nat × Nat)) (keys : List (Nat × SortOrder)) : Prop where
  columns : ∀ p ∈ columns, plan.Refers p.2 p.1
  keys : List.Forall₂ plan.Specifies keys plan.sort

theorem addColumn_spec (plan : SortPlan) (i : Nat) (sExpr : Bytes) :
    (plan.addColumn i sExpr).2.Refers (plan.addColumn i sExpr).1 i ∧ (plan.addColumn i sExpr).2.sort = plan.sort ∧
      ∃ more, (plan.addColumn i sExpr).2.proj = plan.proj ++ more := by
  rw [addColumn]
  cases h : plan.proj.findIdx? (fun p => p.subIndex == i) with
  | none => exact ⟨by simp [Refers], rfl, _, rfl⟩
  | some j =>
    obtain ⟨hj, hp, -⟩ := List.findIdx?_eq_some_iff_getElem.mp h
    exact ⟨by simp [Refers, List.getElem?_eq_getElem hj, beq_iff_eq.mp hp], rfl, [], by simp⟩

theorem Refers.append {plan plan' : SortPlan} {index i : Nat} (h : plan.Refers index i) {more : List SortProjection}
    (hp : plan'.proj = plan.proj ++ more) : plan'.Refers index i := by
  obtain ⟨p, hget, rfl⟩ := Option.map_eq_some_iff.mp h
  obtain ⟨hlt, rfl⟩ := List.getElem?_eq_some_iff.mp hget
  rw [Refers, hp, List.getElem?_append_left hlt, hget]
  rfl

theorem addProjection_some {plan plan' : SortPlan} {add : ParseNode → Fallible (Option Nat × σ)} {pNode : ParseNode}
    {i : Nat} {j : Option Nat} {child child' : σ} (hchild : add pNode = .ok (some i, child))
    (h : plan.addProjection add pNode = .ok (j, plan', child')) :
    j = some (plan.addColumn i pNode.sExpr).1 ∧ plan' = (plan.addColumn i pNode.sExpr).2 := by
  rw [addProjection, hchild, ok_bind] at h
  cases h
  exact ⟨rfl, rfl⟩

theorem addProjection_none {plan plan' : SortPlan} {add : ParseNode → Fallible (Option Nat × σ)} {pNode : ParseNode}
    {child' : σ} (h : plan.addProjection add pNode = .ok (none, plan', child')) : plan' = plan := by
  obtain ⟨⟨i, child⟩, -, h⟩ := bind_eq_ok.mp h
  cases i with
  | none =>
    cases h
    rfl
  | some i => cases h

theorem Specifies.append {plan plan' : SortPlan} {key : Nat × SortOrder} {spec : SortSpec} (h : plan.Specifies key spec)
    {more : List SortProjection} (hp : plan'.proj = plan.proj ++ more) : plan'.Specifies key spec :=
  ⟨h.1.append hp, h.2⟩

theorem setOrder_specifies {plan : SortPlan} {keys : List (Nat × SortOrder)} {specs : List SortSpec}
    (h : List.Forall₂ plan.Specifies keys specs) (i : Nat) (order : SortOrder) :
    List.Forall₂ plan.Specifies (keys.modify i fun key => (key.1, order))
      (specs.modify i fun spec => { spec with order }) := by
  induction h generalizing i with
  | nil => simp
  | cons hkey hrest ih =>
    cases i with
    | zero => exact .cons ⟨hkey.1, rfl⟩ hrest
    | succ i => exact .cons hkey (ih i)

theorem modify_order_self {plan : SortPlan} {keys : List (Nat × SortOrder)} {specs : List SortSpec}
    (h : List.Forall₂ plan.Specifies keys specs) {i : Nat} {spec : SortSpec} (hi : specs[i]? = some spec) :
    keys.modify i (fun key => (key.1, spec.order)) = keys := by
  induction h generalizing i with
  | nil => simp
  | @cons key first keys specs hkey hrest ih =>
    cases i with
    | zero =>
      obtain rfl := Option.some.inj hi
      rw [List.modify_zero_cons, hkey.2]
    | succ i => rw [List.modify_succ_cons, ih hi]

theorem ensureSortOrder_proj (plan : SortPlan) (iSortIndex : Nat) (sColumn : Bytes) (order : SortOrder) :
    (plan.ensureSortOrder iSortIndex sColumn order).2.proj = plan.proj := by
  rw [ensureSortOrder]
  cases plan.sort[iSortIndex]? with
  | none => rfl
  | some spec =>
    dsimp only
    split_ifs <;> rfl

/-- A call of `ensureSortOrder` leaves the directions that its answer promises. -/
theorem ensureSortOrder_specifies {plan : SortPlan} {keys : List (Nat × SortOrder)}
    (h : List.Forall₂ plan.Specifies keys plan.sort) (iSortIndex : Nat) (sColumn : Bytes) (order : SortOrder) :
    List.Forall₂ plan.Specifies (granted keys (plan.ensureSortOrder iSortIndex sColumn order).1 iSortIndex order)
      (plan.ensureSortOrder iSortIndex sColumn order).2.sort := by
  rw [ensureSortOrder]
  cases hspec : plan.sort[iSortIndex]? with
  | none => exact h
  | some spec =>
    dsimp only
    split_ifs with hcolumn hany hfree
    · exact h
    · rwa [granted, if_neg (by simp [hany])]
    · rw [granted, if_pos ⟨rfl, hany⟩]
      exact setOrder_specifies h iSortIndex order
    · by_cases hsame : spec.order = order
      · subst hsame
        rw [granted, if_pos ⟨decide_eq_true rfl, hany⟩, modify_order_self h hspec]
        exact h
      · rwa [granted, if_neg (by simp [hsame])]

theorem Aligned.append {plan plan' : SortPlan} {columns : List (Nat × Nat)} {keys : List (Nat × SortOrder)}
    (h : plan.Aligned columns keys) {more : List SortProjection} (hp : plan'.proj = plan.proj ++ more)
    (hs : plan'.sort = plan.sort) : plan'.Aligned columns keys where
  columns p hmem := (h.columns p hmem).append hp
  keys := by
    rw [hs]
    exact h.keys.imp fun _ _ href => href.append hp

theorem Setup.aligned {add : σ → ParseNode → Fallible (Option Nat × σ)} {plan : SortPlan} {child : σ}
    {columns : List (Nat × Nat)} {keys : List (Nat × SortOrder)} (h : Setup add plan child columns keys) :
    plan.Aligned columns keys := by
  induction h with
  | start child => exact ⟨by simp, .nil⟩
  | @projection plan plan' child child' columns keys pNode i j h hchild hsort ih =>
    obtain ⟨hj, rfl⟩ := addProjection_some hchild hsort
    cases hj
    obtain ⟨href, hs, more, hp⟩ := plan.addColumn_spec i pNode.sExpr
    have hal := ih.append hp hs
    refine ⟨fun p hmem => ?_, hal.keys⟩
    obtain hmem | rfl := List.mem_append.mp hmem |>.imp_right List.mem_singleton.mp
    · exact hal.columns p hmem
    · exact href
  | noColumn h hsort ih =>
    obtain rfl := addProjection_none hsort
    exact ih
  | @specification plan plan' child child' columns keys pNode i order h hchild hsort ih =>
    obtain ⟨⟨j, plan1, child1⟩, hproj, hsort⟩ := bind_eq_ok.mp hsort
    obtain ⟨rfl, rfl⟩ := addProjection_some hchild hproj
    cases hsort
    obtain ⟨href, hs, more, hp⟩ := plan.addColumn_spec i pNode.sExpr
    have hal := ih.append hp hs
    refine ⟨hal.columns, ?_⟩
    exact List.rel_append hal.keys (.cons ⟨href, rfl⟩ .nil)
  | @ensure plan child columns keys h iSortIndex sColumn order ih =>
    have happ := (plan.ensureSortOrder_proj iSortIndex sColumn order).trans (List.append_nil _).symm
    refine ⟨fun p hmem => (ih.columns p hmem).append happ, ?_⟩
    exact (ensureSortOrder_specifies ih.keys iSortIndex sColumn order).imp fun _ _ hkey => hkey.append happ

section Run

variable (conv) (type : Nat → DBDataType)

def value (r : Row) (i : Nat) : ExecutionResult := (r i (type i)).toOption.getD .null

def types (plan : SortPlan) : List DBDataType := plan.proj.map fun p => type p.subIndex

def values (plan : SortPlan) (r : Row) : List ExecutionResult := plan.proj.map fun p => value type r p.subIndex

def compareValues (i : Nat) (x y : ExecutionResult) : Ordering := (x.compare conv y (type i)).toOption.getD .eq

def keyOrder (key : Nat × SortOrder) (a b : Row) : Ordering :=
  key.2.direct (compareValues conv type key.1 (value type a key.1) (value type b key.1))

/-- The order of two rows by the first key that tells them apart. -/
def rowOrder (keys : List (Nat × SortOrder)) : Row → Row → Ordering := lex (keys.map (keyOrder conv type))

def Faithful (types : List DBDataType) (vs : List ExecutionResult) : Prop :=
  ∃ bytes, DataRow.copyRow conv types vs = .ok bytes ∧
    ∀ j v, vs[j]? = some v → DataRow.getResult types bytes j = .ok v

/-- The values can be compared with each other, as an order up to ties. -/
structure TotalOn (i : Nat) (vs : List ExecutionResult) : Prop where
  total : ∀ x ∈ vs, ∀ y ∈ vs, ∃ n, x.compare conv y (type i) = .ok n
  orders : Orders (compareValues conv type i) vs

def rowSize (plan : SortPlan) (r : Row) : Nat :=
  (DataRow.computeSize conv (plan.types type) (plan.values type r)).toOption.getD 0

/-- The rows of the child suit the sort: their columns have the types and the values are there, the
encoded rows keep the values and fit in the buffer, and the columns of the specifications are ordered. -/
structure Sortable (plan : SortPlan) (keys : List (Nat × SortOrder)) (columnType : Nat → Fallible DBDataType) (pool : Nat)
    (rows : List Row) : Prop where
  types : ∀ p ∈ plan.proj, columnType p.subIndex = .ok (type p.subIndex)
  values : ∀ r ∈ rows, ∀ p ∈ plan.proj, r p.subIndex (type p.subIndex) = .ok (value type r p.subIndex)
  faithful : ∀ r ∈ rows, Faithful conv (plan.types type) (plan.values type r)
  fits : ∃ slots,
    ExecutionBuffer.allocateAll (rows.map (rowSize conv type plan)) pool { total := sortBufferSize } = .ok slots
  total : ∀ key ∈ keys, TotalOn conv type key.1 (rows.map fun r => value type r key.1)

def Encodes (plan : SortPlan) (r : Row) (bytes : Bytes) : Prop :=
  ∀ j p, plan.proj[j]? = some p → DataRow.getResult (plan.types type) bytes j = .ok (value type r p.subIndex)

variable {conv type} {plan : SortPlan} {columns : List (Nat × Nat)} {keys : List (Nat × SortOrder)}
  {columnType : Nat → Fallible DBDataType} {pool : Nat} {rows : List Row}

theorem readRow (r : Row) {proj : List SortProjection}
    (h : ∀ p ∈ proj, r p.subIndex (type p.subIndex) = .ok (value type r p.subIndex)) :
    (proj.zip (proj.map fun p => type p.subIndex)).mapM (fun p => r p.1.subIndex p.2) =
      .ok (proj.map fun p => value type r p.subIndex) := by
  induction proj with
  | nil => rfl
  | cons p proj ih =>
    rw [List.map_cons, List.zip_cons_cons, List.mapM_cons, h p (by simp), ih fun q hq => h q (by simp [hq])]
    rfl

theorem Faithful.copyRow {ts : List DBDataType} {vs : List ExecutionResult} (h : Faithful conv ts vs)
    {buffer buffer' : ExecutionBuffer} {pool' : Nat}
    (hroom : buffer.doAlloc ((DataRow.computeSize conv ts vs).toOption.getD 0) pool = .ok (pool', buffer')) :
    ∃ bytes, buffer.copyRow conv ts vs pool = .ok (bytes, pool', buffer') ∧
      ∀ j v, vs[j]? = some v → DataRow.getResult ts bytes j = .ok v := by
  obtain ⟨bytes, hcopy, hget⟩ := h
  obtain ⟨n, hn, hcopy⟩ := bind_eq_ok.mp hcopy
  obtain ⟨data, hdata, hcopy⟩ := bind_eq_ok.mp hcopy
  cases hcopy
  refine ⟨data.1, ?_, hget⟩
  rw [hn] at hroom
  rw [ExecutionBuffer.copyRow, hn, ok_bind, show buffer.doAlloc n pool = _ from hroom, ok_bind, hdata]
  rfl

theorem collectRows_spec {buffer : ExecutionBuffer} {slots : List ExecutionBuffer.Slot}
    (hvalues : ∀ r ∈ rows, ∀ p ∈ plan.proj, r p.subIndex (type p.subIndex) = .ok (value type r p.subIndex))
    (hfaithful : ∀ r ∈ rows, Faithful conv (plan.types type) (plan.values type r))
    (hfits : ExecutionBuffer.allocateAll (rows.map (rowSize conv type plan)) pool buffer = .ok slots) :
    ∃ bytes, collectRows conv plan.proj (plan.types type) none rows pool buffer = .ok bytes ∧
      List.Forall₂ (Encodes type plan) rows bytes := by
  induction rows generalizing pool buffer slots with
  | nil => exact ⟨[], rfl, .nil⟩
  | cons r rs ih =>
    obtain ⟨⟨pool', buffer'⟩, hroom, hfits⟩ := bind_eq_ok.mp hfits
    obtain ⟨rest, hfits, -⟩ := bind_eq_ok.mp hfits
    obtain ⟨b, hcopy, hget⟩ := (hfaithful r (by simp)).copyRow hroom
    obtain ⟨bs, hbs, hall⟩ :=
      ih (fun q hq => hvalues q (by simp [hq])) (fun q hq => hfaithful q (by simp [hq])) hfits
    refine ⟨b :: bs, ?_, .cons (fun j p hp => hget j _ (by simp [values, hp])) hall⟩
    have hread : (plan.proj.zip (plan.types type)).mapM (fun p => r p.1.subIndex p.2) = .ok (plan.values type r) :=
      readRow r (hvalues r (by simp))
    rw [collectRows, hread, ok_bind, hcopy, ok_bind]
    dsimp only
    rw [hbs]
    rfl

theorem Encodes.compareAt {r s : Row} {a b : Bytes} (ha : Encodes type plan r a) (hb : Encodes type plan s b)
    {index i : Nat} (href : plan.Refers index i) :
    compareAt conv (plan.types type) index a b = (value type r i).compare conv (value type s i) (type i) := by
  obtain ⟨p, hp, rfl⟩ := Option.map_eq_some_iff.mp href
  rw [SortPlan.compareAt, ha index p hp, ok_bind, hb index p hp, ok_bind]
  simp [types, hp]

/-- The lambda decides two stored rows by the first specification that tells them apart. -/
theorem Encodes.comp {r s : Row} {a b : Bytes} (ha : Encodes type plan r a) (hb : Encodes type plan s b)
    {specs : List SortSpec} (hkeys : List.Forall₂ plan.Specifies keys specs)
    (htotal : ∀ key ∈ keys, ∃ n, (value type r key.1).compare conv (value type s key.1) (type key.1) = .ok n) :
    comp conv (plan.types type) specs a b = .ok (rowOrder conv type keys r s == .lt) := by
  induction hkeys with
  | nil => rfl
  | @cons key spec keys specs hspec _ ih =>
    obtain ⟨i, order⟩ := key
    obtain ⟨hi, horder⟩ := hspec
    obtain ⟨n, hn⟩ := htotal (i, order) (by simp)
    have hrec := ih fun k hk => htotal k (by simp [hk])
    have hkey : keyOrder conv type (i, order) r s = order.direct n := by
      simp [keyOrder, compareValues, hn, Except.toOption]
    rw [SortPlan.comp, ha.compareAt hb hi, hn, ok_bind, hrec, rowOrder, rowOrder, List.map_cons, lex, hkey, horder]
    cases n <;> cases order <;> rfl

theorem rowOrder_orders (htotal : ∀ key ∈ keys, TotalOn conv type key.1 (rows.map fun r => value type r key.1)) :
    Orders (rowOrder conv type keys) rows := by
  refine Orders.lex fun c hc => ?_
  obtain ⟨⟨i, order⟩, hmem, rfl⟩ := List.mem_map.mp hc
  have h : Orders (fun a b => compareValues conv type i (value type a i) (value type b i)) rows :=
    (htotal _ hmem).orders.comap fun r hr => List.mem_map_of_mem hr
  by_cases ho : order = .descend
  · subst ho
    have hrev := h.reverse
    refine ⟨fun a ha b hb => ?_, fun a ha b hb e he => ?_⟩
    · simp only [keyOrder, SortOrder.direct, if_true]
      rw [h.swap a ha b hb]
    · simp only [keyOrder, SortOrder.direct, if_true]
      rw [← h.swap a ha b hb, ← h.swap b hb e he, ← h.swap a ha e he]
      exact hrev.trans a ha b hb e he
  · rwa [show keyOrder conv type (i, order) = _ from funext₂ fun a b => if_neg ho]

/-- Stored rows keep values of their types, but for the strings whose length reads back differently. -/
theorem faithful_of_hasTypes {ts : List DBDataType} {vs : List ExecutionResult} (ht : DataRow.HasTypes ts vs)
    {bytes : Bytes} (h : DataRow.copyRow conv ts vs = .ok bytes)
    (hr : ∀ v ∈ vs, DataRow.sizeReadsBack v = true) : Faithful conv ts vs :=
  ⟨bytes, h, ((DataRow.roundTrips_iff conv ts vs ht bytes h).mpr hr).result⟩

/-- The handlers order the values of their types that are numbers or strings. -/
theorem totalOn_of_ordered {i : Nat} {vs : List ExecutionResult}
    (h : ∀ v ∈ vs, KeyOrder.isOrdered (getHandler (type i)) v = true) : TotalOn conv type i vs := by
  have heq : ∀ x ∈ vs, ∀ y ∈ vs,
      x.compare conv y (type i) = .ok (ThreeWay.order (KeyOrder.rank x) (KeyOrder.rank y)) :=
    fun x hx y hy => KeyOrder.compare_eq conv (h x hx) (h y hy)
  have hval : ∀ x ∈ vs, ∀ y ∈ vs,
      compareValues conv type i x y = ThreeWay.order (KeyOrder.rank x) (KeyOrder.rank y) :=
    fun x hx y hy => by rw [compareValues, heq x hx y hy]; rfl
  refine ⟨fun x hx y hy => ⟨_, heq x hx y hy⟩, fun x hx y hy => ?_, fun x hx y hy z hz hxy hyz hxz => ?_⟩
  · rw [hval x hx y hy, hval y hy x hx, ThreeWay.order_swap]
  · rw [hval x hx y hy, ne_eq, ThreeWay.order_eq_gt, not_lt] at hxy
    rw [hval y hy z hz, ne_eq, ThreeWay.order_eq_gt, not_lt] at hyz
    rw [hval x hx z hz, ThreeWay.order_eq_gt] at hxz
    exact absurd hxz (not_lt.mpr (hxy.trans hyz))

def addName (_ : Unit) (pNode : ParseNode) : Fallible (Option Nat × Unit) :=
  .ok (if pNode.getString = bytes "a" then some 0 else some 1, ())

def typeName (i : Nat) : DBDataType := if i = 0 then .int32 else .string

def rowName (n : Int) (s : String) : Row := fun i _ => .ok (if i = 0 then .int n else .string (bytes s))

def nameNode (s : String) : ParseNode := .node .name .none (bytes s) (bytes s) []

/-- `SELECT b, a .. ORDER BY b, a`, of which `b` is wanted in descending order afterwards. -/
def byName : SortPlan :=
  { proj := [⟨1, bytes "b"⟩, ⟨0, bytes "a"⟩], sort := [⟨0, 1, bytes "b", .descend⟩, ⟨1, 0, bytes "a", .ascend⟩] }

theorem setup_byName : Setup addName byName () [(1, 0), (0, 1)] [(1, .descend), (0, .ascend)] := by
  have h1 : Setup addName { proj := [⟨1, bytes "b"⟩], sort := [⟨0, 1, bytes "b", .any⟩] } () [] [(1, .any)] :=
    @Setup.specification _ addName _ _ _ () [] [] (nameNode "b") 1 .any (.start ()) rfl rfl
  have h2 : Setup addName { byName with sort := [⟨0, 1, bytes "b", .any⟩, ⟨1, 0, bytes "a", .ascend⟩] } () []
      [(1, .any), (0, .ascend)] :=
    @Setup.specification _ addName _ _ _ () [] [(1, .any)] (nameNode "a") 0 .ascend h1 rfl rfl
  have h3 : Setup addName byName () [] [(1, .descend), (0, .ascend)] := h2.ensure 0 (bytes "b") .descend
  have h4 : Setup addName byName () [(1, 0)] [(1, .descend), (0, .ascend)] :=
    @Setup.projection _ addName _ _ _ () [] [(1, .descend), (0, .ascend)] (nameNode "b") 1 0 h3 rfl rfl
  exact @Setup.projection _ addName _ _ _ () [(1, 0)] [(1, .descend), (0, .ascend)] (nameNode "a") 0 1 h4 rfl rfl

end Run

end SortPlan

end LevelPgServer
