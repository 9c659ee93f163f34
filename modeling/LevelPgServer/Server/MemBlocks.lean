import LevelPgServer.Common.ParseNode
import Mathlib.Logic.Relation

/-! The memory blocks of the pool, and who owns them while sessions come and go. -/

namespace LevelPgServer

/-- A `MemBuffer`; a `MemBlockPtr` is an `Option MemBlock`. -/
structure MemBlock where
  id : Nat
  size : Nat
  deriving DecidableEq

structure GlobalMemBlockPool where
  freeBlocks : List (Option MemBlock) := []
  m_iTotalMem : Nat := 0
  deriving DecidableEq

namespace GlobalMemBlockPool

/-- `alloc` under the limit `getExecutionBuffer()`; a new block gets the name `id`. -/
def alloc (limit : UInt32) (id : Nat) (p : GlobalMemBlockPool) : Option MemBlock × GlobalMemBlockPool :=
  match p.freeBlocks with
  | [] =>
    let iTotal := (p.m_iTotalMem + blockSize) % 2 ^ 64
    (if limit.toNat < iTotal then none else some ⟨id, blockSize⟩, { p with m_iTotalMem := iTotal })
  | head :: rest => (head, { p with freeBlocks := rest })

def free (buffers : List (Option MemBlock)) (p : GlobalMemBlockPool) : GlobalMemBlockPool :=
  { p with freeBlocks := p.freeBlocks ++ buffers }

end GlobalMemBlockPool

/-- Where a session stands between being handed out and given back. -/
inductive SessionPhase
  | idle | accepting | starting | running | ending | closing
  deriving DecidableEq

/-- The blocks of a session: the one of `m_pResult`, if there is one, and `m_pBuffer`. -/
structure Session where
  phase : SessionPhase := .idle
  result : Option MemBlock := none
  buffer : Option MemBlock := none
  deriving DecidableEq

/-- The pool, the blocks that exist and the ones that each session and each `ExecutionBuffer`
owns; `made` blocks have been made in all. -/
structure MemBlocks where
  pool : GlobalMemBlockPool := {}
  heap : List MemBlock := []
  made : Nat := 0
  sessions : Nat → Session := fun _ => {}
  buffers : Nat → List MemBlock := fun _ => []

namespace MemBlocks

/-- `emplace` and `allocBuffer` are the two lines of `start` that can fail, `reset` and `release` those of `end`;
`grow` is a block that `doAlloc` asks for, and `drop` the end of an `ExecutionBuffer`. -/
inductive Event
  | accept (i : Nat)
  | acceptFails (i : Nat)
  | emplace (i : Nat) (initialized : Bool)
  | allocBuffer (i : Nat)
  | finish (i : Nat)
  | reset (i : Nat)
  | release (i : Nat)
  | grow (e : Nat)
  | drop (e : Nat)

def setSession (s : MemBlocks) (i : Nat) (session : Session) : MemBlocks :=
  { s with sessions := Function.update s.sessions i session }

def setBuffer (s : MemBlocks) (e : Nat) (blocks : List MemBlock) : MemBlocks :=
  { s with buffers := Function.update s.buffers e blocks }

variable (limit : UInt32)

def alloc (s : MemBlocks) : Option MemBlock × MemBlocks :=
  let p := s.pool.alloc limit s.made
  match s.pool.freeBlocks, p.1 with
  | [], some b => (some b, { s with
      pool := p.2
      heap := b :: s.heap
      made := s.made + 1 })
  | _, _ => (p.1, { s with pool := p.2 })

def free (s : MemBlocks) (buffers : List (Option MemBlock)) : MemBlocks := { s with pool := s.pool.free buffers }

/-- A `MemBlockPtr` that goes away takes its block with it. -/
def destroy (s : MemBlocks) (p : Option MemBlock) : MemBlocks :=
  match p with
  | none => s
  | some b => { s with heap := s.heap.erase b }

/-- `m_pResult.emplace()`, and its exception in `start`, which ends the session. -/
def emplace (s : MemBlocks) (i : Nat) (initialized : Bool) : MemBlocks :=
  let old := (s.sessions i).result
  let s := if old = none then s else s.free [old]
  let (block, s) := s.alloc limit
  if block = none then s.setSession i { s.sessions i with
    phase := .ending
    result := none }
  else if initialized then s.setSession i { s.sessions i with
    phase := .starting
    result := block }
  else (s.destroy block).setSession i { s.sessions i with
    phase := .ending
    result := none }

/-- A step of a session or of an execution buffer, each with at most one call of the pool. -/
def step (s : MemBlocks) : Event → Option MemBlocks
  | .accept i =>
    if (s.sessions i).phase = .idle then some (s.setSession i { s.sessions i with phase := .accepting }) else none
  | .acceptFails i =>
    if (s.sessions i).phase = .accepting then some (s.setSession i { s.sessions i with phase := .ending }) else none
  | .emplace i initialized =>
    if (s.sessions i).phase = .accepting then some (s.emplace limit i initialized) else none
  | .allocBuffer i =>
    if (s.sessions i).phase = .starting then
      let old := (s.sessions i).buffer
      let (block, s) := s.alloc limit
      -- a null pointer is not noticed here
      some ((s.destroy old).setSession i { s.sessions i with
        phase := .running
        buffer := block })
    else none
  | .finish i =>
    if (s.sessions i).phase = .running then some (s.setSession i { s.sessions i with phase := .ending }) else none
  | .reset i =>
    if (s.sessions i).phase = .ending then
      let old := (s.sessions i).result
      let s := if old = none then s else s.free [old]
      some (s.setSession i { s.sessions i with
        phase := .closing
        result := none })
    else none
  | .release i =>
    if (s.sessions i).phase = .closing then
      let old := (s.sessions i).buffer
      some ((s.free [old]).setSession i { s.sessions i with
        phase := .idle
        buffer := none })
    else none
  | .grow e =>
    match s.alloc limit with
    | (none, s) => some s
    | (some b, s) => some (s.setBuffer e (s.buffers e ++ [b]))
  | .drop e => some ((s.free ((s.buffers e).map some)).setBuffer e [])

inductive Owner
  | result (i : Nat)
  | session (i : Nat)
  | execution (e k : Nat)
  deriving DecidableEq

def owned (s : MemBlocks) : Owner → Option MemBlock
  | .result i => (s.sessions i).result
  | .session i => (s.sessions i).buffer
  | .execution e k => (s.buffers e)[k]?

structure Sound (s : MemBlocks) : Prop where
  real : ∀ p ∈ s.pool.freeBlocks, ∃ b, p = some b ∧ b ∈ s.heap ∧ b.size = blockSize
  unowned : ∀ b, some b ∈ s.pool.freeBlocks → ∀ o, s.owned o ≠ some b
  once : s.pool.freeBlocks.Nodup ∧ ∀ b o o', s.owned o = some b → s.owned o' = some b → o = o'
  bound : (s.heap.map MemBlock.size).sum ≤ limit.toNat
  refuses : (s.alloc limit).1 = none → s.pool.freeBlocks = [] ∧ limit.toNat < (s.heap.map MemBlock.size).sum + blockSize

/-- No null pointer is given back, no parse result fails behind its allocation, and the counter of the
pool does not overflow. -/
def Meets (s : MemBlocks) : Event → Prop
  | .release i => (s.sessions i).buffer ≠ none
  | .emplace _ initialized =>
    ((s.alloc limit).1 ≠ none → initialized = true) ∧ (s.pool.freeBlocks = [] → s.pool.m_iTotalMem + blockSize < 2 ^ 64)
  | .allocBuffer _ | .grow _ => s.pool.freeBlocks = [] → s.pool.m_iTotalMem + blockSize < 2 ^ 64
  | _ => True

def Steps (s s' : MemBlocks) : Prop := ∃ e, Meets limit s e ∧ s.step limit e = some s'

/-- Every block is once in the pool or with one owner, and the counter is what has been made unless the limit is
reached. -/
structure Held (pool : GlobalMemBlockPool) (heap : List MemBlock) (made : Nat) (owned : Owner → Option MemBlock) : Prop where
  real : ∀ p ∈ pool.freeBlocks, ∃ b, p = some b ∧ b ∈ heap
  held : ∀ o b, owned o = some b → b ∈ heap
  unowned : ∀ b, some b ∈ pool.freeBlocks → ∀ o, owned o ≠ some b
  free_nodup : pool.freeBlocks.Nodup
  once : ∀ b o o', owned o = some b → owned o' = some b → o = o'
  blocks : ∀ b ∈ heap, b.size = blockSize ∧ b.id < made
  bound : blockSize * heap.length ≤ limit.toNat
  counted : blockSize * heap.length ≤ pool.m_iTotalMem
  counter : pool.m_iTotalMem = blockSize * heap.length ∨ limit.toNat < blockSize * heap.length + blockSize

/-- What each phase leaves with a session. -/
def Phased (session : Session) : Prop :=
  match session.phase with
  | .idle | .accepting => session.result = none ∧ session.buffer = none
  | .starting => session.buffer = none
  | .closing => session.result = none
  | .running | .ending => True

structure Inv (s : MemBlocks) : Prop where
  held : Held limit s.pool s.heap s.made s.owned
  phased : ∀ i, Phased (s.sessions i)

variable {limit} {pool : GlobalMemBlockPool} {heap : List MemBlock} {made : Nat} {owned owned' : Owner → Option MemBlock}

/-- A block that exists and is with nobody goes to an owner without one. -/
theorem Held.give (h : Held limit pool heap made owned) {b : MemBlock} {o : Owner} (hb : b ∈ heap)
    (hfree : some b ∉ pool.freeBlocks) (hloose : ∀ o, owned o ≠ some b)
    (howned : ∀ o', owned' o' = if o' = o then some b else owned o') : Held limit pool heap made owned' := by
  have hcases : ∀ o' c, owned' o' = some c → o' = o ∧ c = b ∨ o' ≠ o ∧ owned o' = some c := by
    intro o' c hc
    rw [howned] at hc
    split at hc
    · next ho => exact .inl ⟨ho, (Option.some.inj hc).symm⟩
    · next ho => exact .inr ⟨ho, hc⟩
  refine { h with
    held := fun o' c hc => ?_
    unowned := fun c hc o' hc' => ?_
    once := fun c o₁ o₂ h₁ h₂ => ?_ }
  · obtain ⟨-, rfl⟩ | ⟨-, hc⟩ := hcases o' c hc
    · exact hb
    · exact h.held o' c hc
  · obtain ⟨-, rfl⟩ | ⟨-, ho⟩ := hcases o' c hc'
    · exact hfree hc
    · exact h.unowned c hc o' ho
  · obtain ⟨rfl, rfl⟩ | ⟨-, h₁⟩ := hcases o₁ c h₁
    · obtain ⟨rfl, -⟩ | ⟨-, h₂⟩ := hcases o₂ c h₂
      · rfl
      · exact absurd h₂ (hloose o₂)
    · obtain ⟨-, rfl⟩ | ⟨-, h₂⟩ := hcases o₂ c h₂
      · exact absurd h₁ (hloose o₁)
      · exact h.once c o₁ o₂ h₁ h₂

theorem Held.free (h : Held limit pool heap made owned) {bs : List MemBlock} (hnodup : bs.Nodup)
    (hbs : ∀ b ∈ bs, ∃ o, owned o = some b) (howned : ∀ o b, owned' o = some b → owned o = some b ∧ b ∉ bs) :
    Held limit (pool.free (bs.map some)) heap made owned' := by
  have hmem : ∀ p, p ∈ (pool.free (bs.map some)).freeBlocks → p ∈ pool.freeBlocks ∨ ∃ b ∈ bs, some b = p := by
    intro p hp
    exact (List.mem_append.mp hp).imp_right List.mem_map.mp
  refine { h with
    real := fun p hp => ?_
    held := fun o b hb => h.held o b (howned o b hb).1
    unowned := fun b hb o ho => ?_
    free_nodup := ?_
    once := fun b o o' ho ho' => h.once b o o' (howned o b ho).1 (howned o' b ho').1 }
  · obtain hp | ⟨b, hb, rfl⟩ := hmem p hp
    · exact h.real p hp
    · obtain ⟨o, ho⟩ := hbs b hb
      exact ⟨b, rfl, h.held o b ho⟩
  · obtain hb | ⟨c, hc, hcb⟩ := hmem _ hb
    · exact h.unowned b hb o (howned o b ho).1
    · cases hcb
      exact (howned o b ho).2 hc
  · refine List.nodup_append.mpr ⟨h.free_nodup, hnodup.map (Option.some_injective _), ?_⟩
    rintro p hp _ hp' rfl
    obtain ⟨b, hb, rfl⟩ := List.mem_map.mp hp'
    obtain ⟨o, ho⟩ := hbs b hb
    exact h.unowned b hp o ho

theorem Held.congr (h : Held limit pool heap made owned) (howned : ∀ o, owned' o = owned o) :
    Held limit pool heap made owned' := by
  obtain rfl : owned' = owned := funext howned
  exact h

theorem Held.sum_sizes (h : Held limit pool heap made owned) : (heap.map MemBlock.size).sum = blockSize * heap.length := by
  have hsizes : heap.map MemBlock.size = List.replicate heap.length blockSize :=
    List.eq_replicate_iff.mpr ⟨List.length_map _, fun n hn => by
      obtain ⟨b, hb, rfl⟩ := List.mem_map.mp hn
      exact (h.blocks b hb).1⟩
  rw [hsizes, List.sum_replicate, smul_eq_mul, Nat.mul_comm]

variable {s s' : MemBlocks}

theorem alloc_of_nil (hfree : s.pool.freeBlocks = []) :
    s.alloc limit =
      if limit.toNat < (s.pool.m_iTotalMem + blockSize) % 2 ^ 64 then
        (none, { s with pool := { s.pool with m_iTotalMem := (s.pool.m_iTotalMem + blockSize) % 2 ^ 64 } })
      else (some ⟨s.made, blockSize⟩, { s with
        pool := { s.pool with m_iTotalMem := (s.pool.m_iTotalMem + blockSize) % 2 ^ 64 }
        heap := ⟨s.made, blockSize⟩ :: s.heap
        made := s.made + 1 }) := by
  unfold alloc GlobalMemBlockPool.alloc
  simp only [hfree]
  by_cases hlimit : limit.toNat < (s.pool.m_iTotalMem + blockSize) % 2 ^ 64
  · simp only [if_pos hlimit]
  · simp only [if_neg hlimit]

theorem alloc_of_cons {head : Option MemBlock} {rest : List (Option MemBlock)} (hfree : s.pool.freeBlocks = head :: rest) :
    s.alloc limit = (head, { s with pool := { s.pool with freeBlocks := rest } }) := by
  unfold alloc GlobalMemBlockPool.alloc
  simp only [hfree]

/-- What `alloc` does: it is refused at the limit, or it gives a block that nobody has. -/
theorem Inv.alloc (h : Inv limit s) (hcounter : s.pool.freeBlocks = [] → s.pool.m_iTotalMem + blockSize < 2 ^ 64) :
    Inv limit (s.alloc limit).2 ∧ (s.alloc limit).2.sessions = s.sessions ∧ (s.alloc limit).2.buffers = s.buffers ∧
      ∀ b, (s.alloc limit).1 = some b → b ∈ (s.alloc limit).2.heap ∧ some b ∉ (s.alloc limit).2.pool.freeBlocks ∧
        ∀ o, s.owned o ≠ some b := by
  have hheld := h.held
  have hcount := hheld.counted
  cases hfree : s.pool.freeBlocks with
  | nil =>
    rw [alloc_of_nil hfree, Nat.mod_eq_of_lt (hcounter hfree)]
    split
    · next hlimit =>
      refine ⟨⟨{ hheld with
        counted := hcount.trans (Nat.le_add_right _ _)
        counter := ?_ }, h.phased⟩, rfl, rfl, nofun⟩
      obtain hc | hc := hheld.counter
      · rw [hc] at hlimit
        exact .inr hlimit
      · exact .inr hc
    · next hlimit =>
      have hnew : ∀ o, s.owned o ≠ some ⟨s.made, blockSize⟩ := fun o ho =>
        absurd (hheld.blocks _ (hheld.held o _ ho)).2 (lt_irrefl _)
      have htotal : s.pool.m_iTotalMem = blockSize * s.heap.length := by
        obtain hc | hc := hheld.counter
        · exact hc
        · omega
      refine ⟨⟨{ hheld with
        real := fun p hp => ?_
        held := fun o b hb => List.mem_cons_of_mem _ (hheld.held o b hb)
        blocks := fun b hb => ?_
        bound := ?_
        counted := ?_
        counter := ?_ }, h.phased⟩, rfl, rfl, fun b hb => ?_⟩
      · rw [hfree] at hp
        cases hp
      · obtain rfl | hb := List.mem_cons.mp hb
        · exact ⟨rfl, Nat.lt_succ_self _⟩
        · exact ⟨(hheld.blocks b hb).1, (hheld.blocks b hb).2.trans (Nat.lt_succ_self _)⟩
      · rw [List.length_cons, Nat.mul_succ]
        omega
      · rw [List.length_cons, Nat.mul_succ]
        exact Nat.add_le_add_right hcount _
      · left
        rw [List.length_cons, Nat.mul_succ]
        exact congrArg (· + blockSize) htotal
      · cases hb
        refine ⟨List.mem_cons_self, ?_, hnew⟩
        rw [hfree]
        exact List.not_mem_nil
  | cons head rest =>
    rw [alloc_of_cons hfree]
    have hnodup := hheld.free_nodup
    rw [hfree] at hnodup
    have hsub : ∀ p, p ∈ rest → p ∈ s.pool.freeBlocks := fun p hp => hfree ▸ List.mem_cons_of_mem head hp
    refine ⟨⟨{ hheld with
      real := fun p hp => hheld.real p (hsub p hp)
      unowned := fun b hb => hheld.unowned b (hsub _ hb)
      free_nodup := (List.nodup_cons.mp hnodup).2 }, h.phased⟩, rfl, rfl, fun b hb => ?_⟩
    cases hb
    have hmem : some b ∈ s.pool.freeBlocks := hfree ▸ List.mem_cons_self
    obtain ⟨c, hc, hheap⟩ := hheld.real _ hmem
    cases hc
    exact ⟨hheap, (List.nodup_cons.mp hnodup).1, hheld.unowned b hmem⟩

theorem sound_of_inv (h : Inv limit s) : Sound limit s := by
  have hheld := h.held
  refine ⟨fun p hp => ?_, hheld.unowned, ⟨hheld.free_nodup, hheld.once⟩, ?_, fun hnone => ?_⟩
  · obtain ⟨b, rfl, hb⟩ := hheld.real p hp
    exact ⟨b, rfl, hb, (hheld.blocks b hb).1⟩
  · rw [hheld.sum_sizes]
    exact hheld.bound
  · rw [hheld.sum_sizes]
    cases hfree : s.pool.freeBlocks with
    | nil =>
      rw [alloc_of_nil hfree] at hnone
      split at hnone
      · next hlimit =>
        refine ⟨rfl, ?_⟩
        have hmod := Nat.mod_le (s.pool.m_iTotalMem + blockSize) (2 ^ 64)
        obtain hc | hc := hheld.counter
        · omega
        · exact hc
      · cases hnone
    | cons head rest =>
      rw [alloc_of_cons hfree] at hnone
      obtain ⟨b, hb, -⟩ := hheld.real head (hfree ▸ List.mem_cons_self)
      cases hnone.symm.trans hb

theorem Inv.changeSession {i : Nat} {session : Session} (h : Inv limit s) (hphased : Phased session)
    (hheld : Held limit s.pool s.heap s.made (s.setSession i session).owned) : Inv limit (s.setSession i session) := by
  refine ⟨hheld, fun j => ?_⟩
  by_cases hj : j = i
  · have hsession : (s.setSession i session).sessions i = session := Function.update_self _ _ _
    rw [hj, hsession]
    exact hphased
  · have hsession : (s.setSession i session).sessions j = s.sessions j := Function.update_of_ne hj _ _
    rw [hsession]
    exact h.phased j

theorem owned_setSession {i : Nat} {session : Session} (o : Owner) : (s.setSession i session).owned o =
    if o = .result i then session.result else if o = .session i then session.buffer else s.owned o := by
  cases o with
  | result j =>
    by_cases hj : j = i
    · simp [owned, setSession, hj]
    · simp [owned, setSession, hj]
  | session j =>
    by_cases hj : j = i
    · simp [owned, setSession, hj]
    · simp [owned, setSession, hj]
  | execution e k => simp [owned, setSession]

theorem Inv.setPhase {i : Nat} {session : Session} (h : Inv limit s) (hresult : session.result = (s.sessions i).result)
    (hbuffer : session.buffer = (s.sessions i).buffer) (hphased : Phased session) : Inv limit (s.setSession i session) := by
  refine h.changeSession hphased (h.held.congr fun o => ?_)
  rw [owned_setSession, hresult, hbuffer]
  split
  · next ho =>
    rw [ho]
    rfl
  · split
    · next ho =>
      rw [ho]
      rfl
    · rfl

theorem owned_setBuffer {e : Nat} {blocks : List MemBlock} (o : Owner) : (s.setBuffer e blocks).owned o =
    match o with
    | .execution e' k => if e' = e then blocks[k]? else s.owned o
    | _ => s.owned o := by
  cases o with
  | result j => rfl
  | session j => rfl
  | execution e' k =>
    by_cases he : e' = e
    · simp [owned, setBuffer, he]
    · simp [owned, setBuffer, he]

theorem Inv.free {t : MemBlocks} (h : Inv limit s) {l : List MemBlock} (hpool : t.pool = s.pool.free (l.map some))
    (hheap : t.heap = s.heap) (hmade : t.made = s.made) (hnodup : l.Nodup) (hbs : ∀ b ∈ l, ∃ o, s.owned o = some b)
    (howned : ∀ o b, t.owned o = some b → s.owned o = some b ∧ b ∉ l) (hphased : ∀ i, Phased (t.sessions i)) :
    Inv limit t := by
  refine ⟨?_, hphased⟩
  rw [hpool, hheap, hmade]
  exact h.held.free hnodup hbs howned

theorem phased_setSession {i : Nat} {session : Session} (h : ∀ j, Phased (s.sessions j)) (hphased : Phased session) (j : Nat) :
    Phased ((s.setSession i session).sessions j) := by
  by_cases hj : j = i
  · have hsession : (s.setSession i session).sessions i = session := Function.update_self _ _ _
    rw [hj, hsession]
    exact hphased
  · have hsession : (s.setSession i session).sessions j = s.sessions j := Function.update_of_ne hj _ _
    rw [hsession]
    exact h j

/-- The block that has been allocated goes to a session that has none in its place. -/
theorem Inv.giveSession {i : Nat} {session : Session} {b : MemBlock} {o : Owner} (h : Inv limit s) (hphased : Phased session)
    (hheap : b ∈ s.heap) (hfree : some b ∉ s.pool.freeBlocks) (hloose : ∀ o, s.owned o ≠ some b)
    (ho : o = .result i ∧ session.result = some b ∧ session.buffer = (s.sessions i).buffer ∨
      o = .session i ∧ session.buffer = some b ∧ session.result = (s.sessions i).result) :
    Inv limit (s.setSession i session) := by
  refine h.changeSession hphased (h.held.give (o := o) hheap hfree hloose fun o' => ?_)
  rw [owned_setSession]
  obtain ⟨rfl, hresult, hbuffer⟩ | ⟨rfl, hbuffer, hresult⟩ := ho
  · rw [hresult, hbuffer]
    by_cases ho : o' = .result i
    · simp [ho]
    · by_cases ho' : o' = .session i
      · simp [ho', owned]
      · simp [ho, ho']
  · rw [hresult, hbuffer]
    by_cases ho : o' = .result i
    · simp [ho, owned]
    · by_cases ho' : o' = .session i
      · simp [ho']
      · simp [ho, ho']

theorem owned_alloc (hsessions : s'.sessions = s.sessions) (hbuffers : s'.buffers = s.buffers) : s'.owned = s.owned := by
  funext o
  cases o with
  | result i => simp [owned, hsessions]
  | session i => simp [owned, hsessions]
  | execution e k => simp [owned, hbuffers]

theorem Inv.step_emplace {i : Nat} {initialized : Bool} (h : Inv limit s) (hmeets : Meets limit s (.emplace i initialized))
    (hphase : (s.sessions i).phase = .accepting) : Inv limit (s.emplace limit i initialized) := by
  have hempty : (s.sessions i).result = none ∧ (s.sessions i).buffer = none := by
    have hphased := h.phased i
    rw [Phased, hphase] at hphased
    exact hphased
  obtain ⟨halloc, hsessions, hbuffers, hgiven⟩ := h.alloc hmeets.2
  unfold emplace
  simp only [hempty.1, if_true]
  cases hblock : (s.alloc limit).1 with
  | none =>
    rw [if_pos rfl]
    refine halloc.setPhase ?_ ?_ trivial
    · rw [hsessions, hempty.1]
    · rfl
  | some b =>
    obtain rfl := hmeets.1 (by rw [hblock]; exact Option.some_ne_none b)
    obtain ⟨hheap, hfree, hloose⟩ := hgiven b hblock
    rw [if_neg (Option.some_ne_none b), if_pos rfl]
    rw [← owned_alloc hsessions hbuffers] at hloose
    refine halloc.giveSession ?_ hheap hfree hloose (.inl ⟨rfl, rfl, rfl⟩)
    rw [hsessions]
    exact hempty.2

theorem Inv.step_allocBuffer {i : Nat} (h : Inv limit s) (hmeets : Meets limit s (.allocBuffer i))
    (hstep : s.step limit (.allocBuffer i) = some s') : Inv limit s' := by
  unfold MemBlocks.step at hstep
  dsimp only at hstep
  split at hstep
  · next hphase =>
    have hempty : (s.sessions i).buffer = none := by
      have hphased := h.phased i
      rw [Phased, hphase] at hphased
      exact hphased
    obtain ⟨halloc, hsessions, hbuffers, hgiven⟩ := h.alloc hmeets
    simp only [hempty, destroy, Option.some.injEq] at hstep
    subst hstep
    cases hblock : (s.alloc limit).1 with
    | none => exact halloc.setPhase rfl (by rw [hsessions, hempty]) trivial
    | some b =>
      obtain ⟨hheap, hfree, hloose⟩ := hgiven b hblock
      rw [← owned_alloc hsessions hbuffers] at hloose
      exact halloc.giveSession trivial hheap hfree hloose (.inr ⟨rfl, rfl, rfl⟩)
  · cases hstep

theorem Inv.freeSession {i : Nat} {session : Session} {b : MemBlock} {o : Owner} (h : Inv limit s) (hphased : Phased session)
    (howner : s.owned o = some b)
    (ho : o = .result i ∧ session.result = none ∧ session.buffer = (s.sessions i).buffer ∨
      o = .session i ∧ session.buffer = none ∧ session.result = (s.sessions i).result) :
    Inv limit ((s.free [some b]).setSession i session) := by
  refine h.free (l := [b]) rfl rfl rfl (List.nodup_singleton b) ?_ ?_ (phased_setSession h.phased hphased)
  · intro c hc
    rw [List.mem_singleton.mp hc]
    exact ⟨o, howner⟩
  · intro o' c hc
    have hkept : o' ≠ o ∧ s.owned o' = some c := by
      rw [owned_setSession] at hc
      obtain ⟨rfl, hresult, hbuffer⟩ | ⟨rfl, hbuffer, hresult⟩ := ho
      · rw [hresult, hbuffer] at hc
        split at hc
        · cases hc
        · next hne =>
          refine ⟨hne, ?_⟩
          split at hc
          · next ho' => rw [ho']; exact hc
          · exact hc
      · rw [hresult, hbuffer] at hc
        split at hc
        · next ho' =>
          rw [ho']
          exact ⟨nofun, hc⟩
        · split at hc
          · cases hc
          · next hne => exact ⟨hne, hc⟩
    refine ⟨hkept.2, fun hb => hkept.1 (h.held.once c o' o hkept.2 ?_)⟩
    rw [List.mem_singleton.mp hb]
    exact howner

theorem Inv.step_reset {i : Nat} (h : Inv limit s) (hstep : s.step limit (.reset i) = some s') : Inv limit s' := by
  unfold MemBlocks.step at hstep
  dsimp only at hstep
  split at hstep
  · cases hresult : (s.sessions i).result with
    | none =>
      simp only [hresult, if_true, Option.some.injEq] at hstep
      subst hstep
      exact h.setPhase hresult.symm rfl rfl
    | some b =>
      simp only [hresult, reduceCtorEq, if_false, Option.some.injEq] at hstep
      subst hstep
      exact h.freeSession rfl (o := .result i) hresult (.inl ⟨rfl, rfl, rfl⟩)
  · cases hstep

theorem Inv.step_release {i : Nat} (h : Inv limit s) (hmeets : Meets limit s (.release i))
    (hstep : s.step limit (.release i) = some s') : Inv limit s' := by
  unfold MemBlocks.step at hstep
  dsimp only at hstep
  split at hstep
  · next hphase =>
    have hempty : (s.sessions i).result = none := by
      have hphased := h.phased i
      rw [Phased, hphase] at hphased
      exact hphased
    obtain ⟨b, hb⟩ := Option.ne_none_iff_exists'.mp hmeets
    cases hstep
    rw [hb]
    exact h.freeSession ⟨hempty, rfl⟩ (o := .session i) hb (.inr ⟨rfl, rfl, rfl⟩)
  · cases hstep

theorem Inv.step_grow {e : Nat} (h : Inv limit s) (hmeets : Meets limit s (.grow e))
    (hstep : s.step limit (.grow e) = some s') : Inv limit s' := by
  obtain ⟨halloc, hsessions, hbuffers, hgiven⟩ := h.alloc hmeets
  unfold MemBlocks.step at hstep
  dsimp only at hstep
  split at hstep
  · next hpair =>
    cases hstep
    rw [hpair] at halloc
    exact halloc
  · next b t hpair =>
    cases hstep
    rw [hpair] at halloc hsessions hbuffers hgiven
    obtain ⟨hheap, hfree, hloose⟩ := hgiven b rfl
    rw [← owned_alloc hsessions hbuffers] at hloose
    refine ⟨halloc.held.give (o := .execution e (t.buffers e).length) hheap hfree hloose fun o => ?_, halloc.phased⟩
    rw [owned_setBuffer]
    cases o with
    | result j => simp
    | session j => simp
    | execution e' k =>
      by_cases he : e' = e
      · subst he
        by_cases hk : k = (t.buffers e').length
        · simp [hk]
        · have hne : ¬ (Owner.execution e' k = .execution e' (t.buffers e').length) := fun heq => hk (by cases heq; rfl)
          simp only [if_true, if_neg hne, owned]
          rw [List.getElem?_append]
          split
          · rfl
          · next hlt =>
            rw [List.getElem?_eq_none (by simp only [List.length_singleton]; omega), List.getElem?_eq_none (by omega)]
      · simp [he]

theorem Inv.step_drop {e : Nat} (h : Inv limit s) : Inv limit ((s.free ((s.buffers e).map some)).setBuffer e []) := by
  have howner : ∀ {b k}, (s.buffers e)[k]? = some b → s.owned (.execution e k) = some b := fun hk => hk
  refine h.free (l := s.buffers e) rfl rfl rfl ?_ ?_ ?_ h.phased
  · rw [List.nodup_iff_getElem?_ne_getElem?]
    intro j k hjk hk heq
    obtain ⟨b, hb⟩ : ∃ b, (s.buffers e)[k]? = some b := ⟨_, List.getElem?_eq_getElem hk⟩
    have hsame := h.held.once b _ _ (howner (heq.trans hb)) (howner hb)
    cases hsame
    exact lt_irrefl _ hjk
  · intro b hb
    obtain ⟨k, hk⟩ := List.getElem?_of_mem hb
    exact ⟨_, howner hk⟩
  · intro o b hb
    rw [owned_setBuffer] at hb
    have hother : ∀ {o'}, s.owned o' = some b → (∀ k, o' ≠ .execution e k) → b ∉ s.buffers e := by
      intro o' ho' hne hmem
      obtain ⟨k, hk⟩ := List.getElem?_of_mem hmem
      exact hne k (h.held.once b _ _ ho' (howner hk))
    cases o with
    | result j =>
      have howned : s.owned (.result j) = some b := hb
      exact ⟨howned, hother howned nofun⟩
    | session j =>
      have howned : s.owned (.session j) = some b := hb
      exact ⟨howned, hother howned nofun⟩
    | execution e' k =>
      by_cases he : e' = e
      · simp [he] at hb
      · simp only [if_neg he] at hb
        have howned : s.owned (.execution e' k) = some b := hb
        exact ⟨howned, hother howned fun k' heq => he (by cases heq; rfl)⟩

theorem Inv.step {e : Event} (h : Inv limit s) (hmeets : Meets limit s e) (hstep : s.step limit e = some s') : Inv limit s' := by
  cases e with
  | allocBuffer i => exact h.step_allocBuffer hmeets hstep
  | reset i => exact h.step_reset hstep
  | release i => exact h.step_release hmeets hstep
  | grow e => exact h.step_grow hmeets hstep
  | drop e =>
    cases hstep
    exact h.step_drop
  | accept i =>
    unfold MemBlocks.step at hstep
    dsimp only at hstep
    split at hstep
    · next hphase =>
      have hphased := h.phased i
      rw [Phased, hphase] at hphased
      cases hstep
      exact h.setPhase rfl rfl hphased
    · cases hstep
  | acceptFails i =>
    unfold MemBlocks.step at hstep
    dsimp only at hstep
    split at hstep
    · cases hstep
      exact h.setPhase rfl rfl trivial
    · cases hstep
  | emplace i initialized =>
    unfold MemBlocks.step at hstep
    dsimp only at hstep
    split at hstep
    · next hphase =>
      cases hstep
      exact h.step_emplace hmeets hphase
    · cases hstep
  | finish i =>
    unfold MemBlocks.step at hstep
    dsimp only at hstep
    split at hstep
    · cases hstep
      exact h.setPhase rfl rfl trivial
    · cases hstep

theorem inv_start (limit : UInt32) : Inv limit {} := by
  have hnone : ∀ o b, owned {} o ≠ some b := by
    intro o b
    cases o with
    | result i => exact nofun
    | session i => exact nofun
    | execution e k => exact nofun
  refine ⟨⟨nofun, fun o b hb => absurd hb (hnone o b), nofun, List.nodup_nil, fun b o _ ho => absurd ho (hnone o b), nofun,
    Nat.zero_le _, Nat.zero_le _, .inl rfl⟩, fun i => ⟨rfl, rfl⟩⟩

/-- In every run in which no null pointer is given back, no parse result fails behind its allocation and
the counter does not overflow, the pool is sound in every state. -/
theorem steps_sound {s : MemBlocks} (h : Relation.ReflTransGen (Steps limit) {} s) : Sound limit s := by
  refine sound_of_inv ?_
  induction h with
  | refl => exact inv_start limit
  | tail _ hstep ih =>
    obtain ⟨e, hmeets, hstep⟩ := hstep
    exact ih.step hmeets hstep

def run (limit : UInt32) (s : MemBlocks) (es : List Event) : Option MemBlocks := es.foldlM (fun s e => s.step limit e) s

theorem steps_sound_started : ∃ s, run 1073741824 {} [.accept 0, .emplace 0 true, .allocBuffer 0] = some s ∧
    Sound 1073741824 s :=
  ⟨_, rfl, steps_sound (((Relation.ReflTransGen.refl.tail ⟨.accept 0, trivial, rfl⟩).tail
    ⟨.emplace 0 true, ⟨fun _ => rfl, fun _ => by decide⟩, rfl⟩).tail ⟨.allocBuffer 0, fun _ => by decide, rfl⟩)⟩

/-- A connection that is not accepted gives a null pointer back, and the next parse result gets it although no
block has been made yet. -/
theorem null_given_back : ∃ s, run 1073741824 {} [.accept 0, .acceptFails 0, .reset 0, .release 0] = some s ∧
    none ∈ s.pool.freeBlocks ∧ (s.alloc 1073741824).1 = none ∧ s.heap = [] := by
  exact ⟨_, rfl, List.mem_cons_self, rfl, rfl⟩

/-- Such a pool is not sound. -/
theorem not_sound_of_null {s s' : MemBlocks} {i : Nat} (hnull : (s.sessions i).buffer = none)
    (hstep : s.step limit (.release i) = some s') : ¬ Sound limit s' := by
  intro h
  unfold MemBlocks.step at hstep
  dsimp only at hstep
  split at hstep
  · cases hstep
    rw [hnull] at h
    obtain ⟨b, hb, -⟩ := h.real none (List.mem_append_right _ (List.mem_singleton_self none))
    cases hb
  · cases hstep

end MemBlocks

end LevelPgServer
