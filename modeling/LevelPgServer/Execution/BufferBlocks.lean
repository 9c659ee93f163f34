import LevelPgServer.Execution.ExecutionBuffer
import LevelPgServer.Lib.Regions
import LevelPgServer.Lib.Runs
import LevelPgServer.Server.MemBlocks
import Mathlib.Data.List.ReduceOption

/-! The blocks behind an `ExecutionBuffer`, and the regions that it gives out. -/

namespace LevelPgServer

open Regions Runs

/-- An `ExecutionBuffer` with its blocks. `doAlloc` keeps what it has counted when it throws. -/
structure BlockBuffer where
  m_iTotal : Nat
  m_bufferBlocks : List MemBlock := []
  m_iUsed : Nat := 0
  m_iBlockUsed : Nat := 0
  m_iCurrentBlock : Nat := 0
  deriving DecidableEq

/-- What a request ends in; `undefined` is a block that is read past the end of the vector. -/
inductive Answer
  | region (r : Region MemBlock)
  | thrown (what : String)
  | undefined

namespace BlockBuffer

def count (size : Nat) (b : BlockBuffer) : BlockBuffer := { b with m_iUsed := (b.m_iUsed + size) % 2 ^ 64 }

/-- The bytes are in the next block if they do not fit into the current one. -/
def advance (size : Nat) (b : BlockBuffer) : BlockBuffer :=
  if blockSize < b.m_iBlockUsed + size then { b with
    m_iCurrentBlock := b.m_iCurrentBlock + 1
    m_iBlockUsed := size }
  else { b with m_iBlockUsed := b.m_iBlockUsed + size }

/-- `m_bufferBlocks[m_iCurrentBlock]->data() + (m_iBlockUsed - size)`. -/
def region (size : Nat) (b : BlockBuffer) : Answer :=
  match b.m_bufferBlocks[b.m_iCurrentBlock]? with
  | some m => .region ⟨m, b.m_iBlockUsed - size, size⟩
  | none => .undefined

def push (m : MemBlock) (b : BlockBuffer) : BlockBuffer := { b with m_bufferBlocks := b.m_bufferBlocks ++ [m] }

/-- A block that the pool has to make gets the name `id`. -/
def doAlloc (limit : UInt32) (id size : Nat) (p : GlobalMemBlockPool) (b : BlockBuffer) :
    Answer × GlobalMemBlockPool × BlockBuffer :=
  if blockSize < size then (.thrown "request buffer too large", p, b)
  else
    let b := b.count size
    if b.m_iTotal < b.m_iUsed then (.thrown "not enough buffer", p, b)
    else
      let b := b.advance size
      if b.m_iCurrentBlock = b.m_bufferBlocks.length then
        match p.alloc limit id with
        | (some m, p) => ((b.push m).region size, p, b.push m)
        | (none, p) => (.thrown "Not enough execution buffer", p, b)
      else (b.region size, p, b)

/-- The state of the buffer when the block for a request is looked for. -/
def placed (size : Nat) (b : BlockBuffer) : BlockBuffer := (b.count size).advance size

def Allowed (size : Nat) (b : BlockBuffer) : Prop := size ≤ blockSize ∧ (b.m_iUsed + size) % 2 ^ 64 ≤ b.m_iTotal

inductive Ends (limit : UInt32) (id size : Nat) (p : GlobalMemBlockPool) (b : BlockBuffer) :
    Answer → GlobalMemBlockPool → BlockBuffer → Prop
  | tooLarge (what : String) (hsize : blockSize < size) : Ends limit id size p b (.thrown what) p b
  | notEnough (what : String) (hsize : size ≤ blockSize) (htotal : b.m_iTotal < (b.m_iUsed + size) % 2 ^ 64) :
      Ends limit id size p b (.thrown what) p (b.count size)
  | refused {p' : GlobalMemBlockPool} (what : String) (ha : b.Allowed size)
      (hnext : (b.placed size).m_iCurrentBlock = b.m_bufferBlocks.length) (hp : p.alloc limit id = (none, p')) :
      Ends limit id size p b (.thrown what) p' (b.placed size)
  | grown {m : MemBlock} {p' : GlobalMemBlockPool} (ha : b.Allowed size)
      (hnext : (b.placed size).m_iCurrentBlock = b.m_bufferBlocks.length) (hp : p.alloc limit id = (some m, p')) :
      Ends limit id size p b (.region ⟨m, (b.placed size).m_iBlockUsed - size, size⟩) p' ((b.placed size).push m)
  | held {m : MemBlock} (ha : b.Allowed size) (hm : b.m_bufferBlocks[(b.placed size).m_iCurrentBlock]? = some m) :
      Ends limit id size p b (.region ⟨m, (b.placed size).m_iBlockUsed - size, size⟩) p (b.placed size)
  | missing (ha : b.Allowed size) (hm : b.m_bufferBlocks.length < (b.placed size).m_iCurrentBlock) :
      Ends limit id size p b .undefined p (b.placed size)

variable {limit : UInt32} {id size : Nat} {p : GlobalMemBlockPool} {b : BlockBuffer}

@[simp] theorem placed_blocks : (b.placed size).m_bufferBlocks = b.m_bufferBlocks := by
  rw [placed, advance]
  split <;> rfl

@[simp] theorem placed_total : (b.placed size).m_iTotal = b.m_iTotal := by
  rw [placed, advance]
  split <;> rfl

@[simp] theorem placed_used : (b.placed size).m_iUsed = (b.m_iUsed + size) % 2 ^ 64 := by
  rw [placed, advance]
  split <;> rfl

theorem placed_cases (size : Nat) (b : BlockBuffer) :
    (blockSize < b.m_iBlockUsed + size ∧ (b.placed size).m_iCurrentBlock = b.m_iCurrentBlock + 1 ∧
      (b.placed size).m_iBlockUsed = size) ∨
    (b.m_iBlockUsed + size ≤ blockSize ∧ (b.placed size).m_iCurrentBlock = b.m_iCurrentBlock ∧
      (b.placed size).m_iBlockUsed = b.m_iBlockUsed + size) := by
  rw [placed, advance]
  split
  · next h => exact .inl ⟨h, rfl, rfl⟩
  · next h => exact .inr ⟨Nat.le_of_not_lt h, rfl, rfl⟩

theorem doAlloc_ends (limit : UInt32) (id size : Nat) (p : GlobalMemBlockPool) (b : BlockBuffer) :
    Ends limit id size p b (b.doAlloc limit id size p).1 (b.doAlloc limit id size p).2.1 (b.doAlloc limit id size p).2.2 := by
  rw [doAlloc]
  dsimp only
  split_ifs with hsize htotal hnext
  · exact .tooLarge _ hsize
  · exact .notEnough _ (Nat.le_of_not_lt hsize) htotal
  · have ha : b.Allowed size := ⟨Nat.le_of_not_lt hsize, Nat.le_of_not_lt htotal⟩
    rw [← placed, placed_blocks] at hnext
    split
    · next m p' hp =>
      have hm : ((b.placed size).push m).region size = .region ⟨m, (b.placed size).m_iBlockUsed - size, size⟩ := by
        rw [region, push, hnext, placed_blocks, List.getElem?_concat_length]
      exact hm ▸ .grown ha hnext hp
    · next p' hp => exact .refused _ ha hnext hp
  · have ha : b.Allowed size := ⟨Nat.le_of_not_lt hsize, Nat.le_of_not_lt htotal⟩
    rw [← placed, placed_blocks] at hnext
    cases hm : b.m_bufferBlocks[(b.placed size).m_iCurrentBlock]? with
    | some m =>
      have hr : (b.placed size).region size = .region ⟨m, (b.placed size).m_iBlockUsed - size, size⟩ := by
        rw [region, placed_blocks, hm]
      exact hr ▸ .held ha hm
    | none =>
      have hr : (b.placed size).region size = .undefined := by rw [region, placed_blocks, hm]
      have hle := List.getElem?_eq_none_iff.mp hm
      exact hr ▸ .missing ha (by omega)

/-- Where a request that is not refused for its size finds a block, or asks for one. -/
def HasBlock (size : Nat) (b : BlockBuffer) : Prop :=
  b.Allowed size → b.m_iBlockUsed + size ≤ blockSize ∨ b.m_iCurrentBlock < b.m_bufferBlocks.length

theorem placed_le (hcurrent : b.m_iCurrentBlock ≤ b.m_bufferBlocks.length) (ha : b.Allowed size) :
    (b.placed size).m_iCurrentBlock ≤ b.m_bufferBlocks.length ↔ b.HasBlock size := by
  obtain ⟨hbig, hcur, -⟩ | ⟨hfits, hcur, -⟩ := b.placed_cases size
  · rw [hcur]
    refine ⟨fun h _ => .inr h, fun h => ?_⟩
    obtain h | h := h ha
    · omega
    · exact h
  · rw [hcur]
    exact ⟨fun _ _ => .inl hfits, fun _ => hcurrent⟩

def counters (b : BlockBuffer) : ExecutionBuffer where
  total := b.m_iTotal
  used := b.m_iUsed
  blockUsed := b.m_iBlockUsed
  currentBlock := b.m_iCurrentBlock
  blocks := b.m_bufferBlocks.length

/-- A request that is answered is counted as the rows of a sort are. -/
theorem Ends.counters {r : Region MemBlock} {p' : GlobalMemBlockPool} {b' : BlockBuffer}
    (h : Ends limit id size p b (.region r) p' b') (hcounts : b.m_iUsed + size < 2 ^ 64) :
    ∃ pool pool', b.counters.doAlloc size pool = .ok (pool', b'.counters) := by
  have hmod := Nat.mod_eq_of_lt hcounts
  have hdo : b.Allowed size → b.counters.doAlloc size 1 =
      if (b.placed size).m_iCurrentBlock = b.m_bufferBlocks.length then
        .ok (0, { (b.placed size).counters with blocks := b.m_bufferBlocks.length + 1 })
      else .ok (1, (b.placed size).counters) := by
    rintro ⟨hsize, htotal⟩
    rw [hmod] at htotal
    have hsize := Nat.not_lt_of_le hsize
    have htotal := Nat.not_lt_of_le htotal
    by_cases hbig : blockSize < b.m_iBlockUsed + size
    · simp only [ExecutionBuffer.doAlloc, BlockBuffer.counters, placed, advance, count, hmod, hsize, htotal, hbig, if_true,
        if_false]
    · simp only [ExecutionBuffer.doAlloc, BlockBuffer.counters, placed, advance, count, hmod, hsize, htotal, hbig, if_false]
  cases h with
  | grown ha hnext hp =>
    refine ⟨1, 0, ?_⟩
    rw [hdo ha, if_pos hnext]
    simp only [BlockBuffer.counters, push, placed_blocks, List.length_append, List.length_singleton]
  | held ha hm =>
    have hne : (b.placed size).m_iCurrentBlock ≠ b.m_bufferBlocks.length :=
      Nat.ne_of_lt (List.getElem?_eq_some_iff.mp hm).1
    exact ⟨1, 1, by rw [hdo ha, if_neg hne]⟩

end BlockBuffer

/-- A buffer, the pool and the other owners of blocks. The names of the blocks are below `made`, and `regions` are
those that the buffer has given out, the last one first. -/
structure BufferState where
  pool : GlobalMemBlockPool := {}
  made : Nat := 0
  others : List MemBlock := []
  buffer : BlockBuffer
  regions : List (Region MemBlock) := []
  undefined : Bool := false

namespace BufferState

/-- A request, or what another owner does: it takes a block from the pool, gives a pointer back, or destroys a
block. -/
inductive Call
  | request (size : Nat)
  | taken
  | given (p : Option MemBlock)
  | destroyed (m : MemBlock)

def answered (s : BufferState) (p : GlobalMemBlockPool) (b : BlockBuffer) : Answer → BufferState
  | .region r => { s with
      pool := p
      made := s.made + 1
      buffer := b
      regions := r :: s.regions }
  | .thrown _ => { s with
      pool := p
      made := s.made + 1
      buffer := b }
  | .undefined => { s with undefined := true }

variable (limit : UInt32)

def step (s : BufferState) : Call → BufferState
  | .request size =>
    if s.undefined then s
    else
      let (answer, p, b) := s.buffer.doAlloc limit s.made size s.pool
      s.answered p b answer
  | .taken =>
    let (m, p) := s.pool.alloc limit s.made
    { s with
      pool := p
      made := s.made + 1
      others := m.toList ++ s.others }
  | .given none => { s with pool := s.pool.free [none] }
  | .given (some m) =>
    if m ∈ s.others then { s with
      pool := s.pool.free [some m]
      others := s.others.erase m }
    else s
  | .destroyed m => { s with others := s.others.erase m }

structure Owned (pool : GlobalMemBlockPool) (made : Nat) (owned : List MemBlock) : Prop where
  nodup : (pool.freeBlocks.reduceOption ++ owned).Nodup
  block : ∀ m ∈ pool.freeBlocks.reduceOption ++ owned, m.id < made ∧ m.size = blockSize

structure Fresh (s : BufferState) : Prop where
  buffer : s.buffer = { m_iTotal := s.buffer.m_iTotal }
  regions : s.regions = []
  defined : s.undefined = false
  owned : Owned s.pool s.made s.others

/-- What is demanded of the regions: they share no byte, each lies inside a block, the blocks are with the buffer and
with nobody else, and they are not larger in all than the limit. -/
structure Sound (s : BufferState) : Prop where
  disjoint : s.regions.Pairwise fun r r' => Disjoint r.bytes r'.bytes
  inside : ∀ r ∈ s.regions, r.arena.size = blockSize ∧ r.offset + r.size ≤ blockSize
  held : ∀ r ∈ s.regions, r.arena ∈ s.buffer.m_bufferBlocks ∧ some r.arena ∉ s.pool.freeBlocks ∧ r.arena ∉ s.others
  total : (s.regions.map Region.size).sum ≤ s.buffer.m_iTotal
  defined : s.undefined = false

def Counts (s : BufferState) : Call → Prop
  | .request size => size ≤ blockSize → s.buffer.m_iUsed + size < 2 ^ 64
  | _ => True

/-- No request goes to the block behind one that the pool has refused. -/
def Meets (s : BufferState) : Call → Prop
  | .request size => s.buffer.HasBlock size
  | _ => True

structure Inv (s : BufferState) : Prop where
  owned : Owned s.pool s.made (s.buffer.m_bufferBlocks ++ s.others)
  stacked : Stacked s.buffer.m_bufferBlocks blockSize s.buffer.m_iCurrentBlock s.buffer.m_iBlockUsed s.regions
  current : s.buffer.m_iCurrentBlock ≤ s.buffer.m_bufferBlocks.length
  used : (s.regions.map Region.size).sum ≤ s.buffer.m_iUsed
  total : (s.regions.map Region.size).sum ≤ s.buffer.m_iTotal
  defined : s.undefined = false

variable {limit} {s : BufferState} {pool pool' : GlobalMemBlockPool} {made : Nat} {owned owned' : List MemBlock} {m : MemBlock}

namespace Owned

theorem perm (h : Owned pool made owned) (hp : owned.Perm owned') : Owned pool made owned' where
  nodup := ((hp.append_left _).nodup_iff).mp h.nodup
  block b hb := h.block b (((hp.append_left _).mem_iff).mpr hb)

theorem mono (h : Owned pool made owned) : Owned pool (made + 1) owned where
  nodup := h.nodup
  block b hb := ⟨Nat.lt_succ_of_lt (h.block b hb).1, (h.block b hb).2⟩

theorem sublist (h : Owned pool made owned) (hs : owned'.Sublist owned) : Owned pool made owned' where
  nodup := h.nodup.sublist (hs.append_left _)
  block b hb := h.block b ((hs.append_left _).mem hb)

theorem alloc_some (h : Owned pool made owned) (ha : pool.alloc limit made = (some m, pool')) :
    Owned pool' (made + 1) (m :: owned) := by
  rw [GlobalMemBlockPool.alloc] at ha
  split at ha
  · next hfree =>
    obtain ⟨hm, rfl⟩ := Prod.mk.inj ha
    split_ifs at hm
    cases hm
    have hall := h.block
    have hnodup := h.nodup
    rw [hfree] at hall hnodup
    refine ⟨?_, fun b hb => ?_⟩
    · rw [hfree]
      refine List.nodup_cons.mpr ⟨fun hin => ?_, hnodup⟩
      exact Nat.lt_irrefl _ (hall _ hin).1
    · rw [hfree] at hb
      obtain rfl | hb := List.mem_cons.mp hb
      · exact ⟨Nat.lt_succ_self _, rfl⟩
      · exact ⟨Nat.lt_succ_of_lt (hall b hb).1, (hall b hb).2⟩
  · next head rest hfree =>
    obtain ⟨rfl, rfl⟩ := Prod.mk.inj ha
    have hred : pool.freeBlocks.reduceOption = m :: rest.reduceOption := by rw [hfree, List.reduceOption_cons_of_some]
    have hperm : (pool.freeBlocks.reduceOption ++ owned).Perm (rest.reduceOption ++ m :: owned) := by
      rw [hred]
      exact List.perm_middle.symm
    exact ⟨hperm.nodup_iff.mp h.nodup, fun b hb =>
      ⟨Nat.lt_succ_of_lt (h.block b (hperm.mem_iff.mpr hb)).1, (h.block b (hperm.mem_iff.mpr hb)).2⟩⟩

theorem alloc_none (h : Owned pool made owned) (ha : pool.alloc limit made = (none, pool')) :
    Owned pool' (made + 1) owned := by
  have hred : pool'.freeBlocks.reduceOption = pool.freeBlocks.reduceOption := by
    rw [GlobalMemBlockPool.alloc] at ha
    split at ha
    · obtain ⟨-, rfl⟩ := Prod.mk.inj ha
      rfl
    · next head rest hfree =>
      obtain ⟨rfl, rfl⟩ := Prod.mk.inj ha
      rw [hfree, List.reduceOption_cons_of_none]
  exact mono ⟨by rw [hred]; exact h.nodup, by rw [hred]; exact h.block⟩

theorem free_none (h : Owned pool made owned) : Owned (pool.free [none]) made owned := by
  have hred : (pool.free [none]).freeBlocks.reduceOption = pool.freeBlocks.reduceOption := by
    simp [GlobalMemBlockPool.free, List.reduceOption_append]
  exact ⟨by rw [hred]; exact h.nodup, by rw [hred]; exact h.block⟩

theorem free_some (h : Owned pool made (m :: owned)) : Owned (pool.free [some m]) made owned := by
  have hred : (pool.free [some m]).freeBlocks.reduceOption = pool.freeBlocks.reduceOption ++ [m] := by
    simp [GlobalMemBlockPool.free, List.reduceOption_append]
  have hperm : (pool.freeBlocks.reduceOption ++ m :: owned) = (pool.freeBlocks.reduceOption ++ [m] ++ owned) := by simp
  exact ⟨by rw [hred, ← hperm]; exact h.nodup, by rw [hred, ← hperm]; exact h.block⟩

end Owned

theorem inv_of_fresh (h : s.Fresh) : s.Inv := by
  obtain ⟨hb, hr, hd, ho⟩ := h
  refine ⟨?_, ?_, ?_, ?_, ?_, hd⟩
  · rw [hb]
    exact ho
  · rw [hr]
    exact stacked_nil
  · rw [hb]
    exact Nat.le_refl 0
  · rw [hr]
    exact Nat.zero_le _
  · rw [hr]
    exact Nat.zero_le _

theorem sound_of_inv (h : s.Inv) : s.Sound where
  disjoint := h.stacked.pairwise
  inside r hr := by
    obtain ⟨hmem, hlimit⟩ := h.stacked.mem hr
    exact ⟨(h.owned.block _ (List.mem_append_right _ (List.mem_append_left _ hmem))).2, hlimit⟩
  held r hr := by
    have hmem := (h.stacked.mem hr).1
    obtain ⟨-, hno, hfree⟩ := List.nodup_append.mp h.owned.nodup
    refine ⟨hmem, fun hin => ?_, fun hin => ?_⟩
    · exact hfree _ (List.reduceOption_mem_iff.mpr hin) _ (List.mem_append_left _ hmem) rfl
    · exact (List.nodup_append.mp hno).2.2 _ hmem _ hin rfl
  total := h.total
  defined := h.defined

section Request

open BlockBuffer

variable {size : Nat} {b : BlockBuffer} {rs : List (Region MemBlock)}

/-- The block that is looked for starts where the regions end, if it is there. -/
theorem stacked_placed (h : Stacked b.m_bufferBlocks blockSize b.m_iCurrentBlock b.m_iBlockUsed rs) (ha : b.Allowed size)
    {blocks : List MemBlock} (hblocks : blocks = b.m_bufferBlocks ∨ blocks = b.m_bufferBlocks ++ [m]) (hn : blocks.Nodup)
    (hm : blocks[(b.placed size).m_iCurrentBlock]? = some m) :
    Stacked blocks blockSize (b.placed size).m_iCurrentBlock (b.placed size).m_iBlockUsed
      (⟨m, (b.placed size).m_iBlockUsed - size, size⟩ :: rs) := by
  have h : Stacked blocks blockSize b.m_iCurrentBlock b.m_iBlockUsed rs := by
    obtain rfl | rfl := hblocks
    · exact h
    · exact h.grow m
  obtain ⟨-, hcur, hused⟩ | ⟨hfits, hcur, hused⟩ := b.placed_cases size
  · rw [hcur] at hm ⊢
    rw [hused, Nat.sub_self]
    have hsize : 0 + size ≤ blockSize := by rw [Nat.zero_add]; exact ha.1
    have htake := (h.next 0).take hn hm hsize
    rwa [Nat.zero_add] at htake
  · rw [hcur] at hm ⊢
    rw [hused, Nat.add_sub_cancel]
    exact h.take hn hm hfits

theorem stacked_refused (h : Stacked b.m_bufferBlocks blockSize b.m_iCurrentBlock b.m_iBlockUsed rs) :
    Stacked b.m_bufferBlocks blockSize (b.placed size).m_iCurrentBlock (b.placed size).m_iBlockUsed rs := by
  obtain ⟨-, hcur, hused⟩ | ⟨-, hcur, hused⟩ := b.placed_cases size
  · rw [hcur, hused]
    exact h.next size
  · rw [hcur, hused]
    exact h.skip (Nat.le_add_right _ _)

theorem sum_sizes (m : MemBlock) (offset size : Nat) (rs : List (Region MemBlock)) :
    ((⟨m, offset, size⟩ :: rs : List (Region MemBlock)).map Region.size).sum = size + (rs.map Region.size).sum := rfl

theorem step_request (limit : UInt32) (s : BufferState) (size : Nat) (hd : s.undefined = false) : ∃ answer p b,
    Ends limit s.made size s.pool s.buffer answer p b ∧ s.step limit (.request size) = s.answered p b answer := by
  refine ⟨_, _, _, doAlloc_ends limit s.made size s.pool s.buffer, ?_⟩
  rw [step, hd]
  rfl

theorem Inv.request (h : s.Inv) (hcounts : s.Counts (.request size)) (hmeets : s.Meets (.request size)) :
    (s.step limit (.request size)).Inv := by
  obtain ⟨answer, p, b, hends, hstep⟩ := step_request limit s size h.defined
  rw [hstep]
  have hmod : size ≤ blockSize → (s.buffer.m_iUsed + size) % 2 ^ 64 = s.buffer.m_iUsed + size :=
    fun hsize => Nat.mod_eq_of_lt (hcounts hsize)
  have hused := h.used
  have htotal := h.total
  cases hends with
  | tooLarge what _ => exact ⟨h.owned.mono, h.stacked, h.current, hused, htotal, h.defined⟩
  | notEnough what hsize _ =>
    refine ⟨h.owned.mono, h.stacked, h.current, ?_, htotal, h.defined⟩
    rw [answered, count, hmod hsize]
    exact hused.trans (Nat.le_add_right _ _)
  | refused what ha hnext hp =>
    have howned := h.owned.alloc_none hp
    refine ⟨?_, ?_, ?_, ?_, ?_, h.defined⟩
    · rwa [answered, placed_blocks]
    · rw [answered, placed_blocks]
      exact stacked_refused h.stacked
    · rw [answered, placed_blocks, hnext]
    · rw [answered, placed_used, hmod ha.1]
      exact hused.trans (Nat.le_add_right _ _)
    · rwa [answered, placed_total]
  | @grown m _ ha hnext hp =>
    have howned : Owned p (s.made + 1) (s.buffer.m_bufferBlocks ++ [m] ++ s.others) := by
      refine (h.owned.alloc_some hp).perm ?_
      rw [List.append_assoc, List.singleton_append]
      exact List.perm_middle.symm
    have hnodup := (List.nodup_append.mp (List.nodup_append.mp howned.nodup).2.1).1
    have hblocks : ((s.buffer.placed size).push m).m_bufferBlocks = s.buffer.m_bufferBlocks ++ [m] := by
      rw [push, placed_blocks]
    have hm : (s.buffer.m_bufferBlocks ++ [m])[(s.buffer.placed size).m_iCurrentBlock]? = some m := by
      rw [hnext, List.getElem?_concat_length]
    have hsum := ha.2
    rw [hmod ha.1] at hsum
    refine ⟨?_, ?_, ?_, ?_, ?_, h.defined⟩
    · rwa [answered, hblocks]
    · rw [answered, hblocks]
      exact stacked_placed h.stacked ha (.inr rfl) hnodup hm
    · rw [answered, hblocks, List.length_append]
      exact hnext.le.trans (Nat.le_add_right _ _)
    · rw [answered, push, placed_used, hmod ha.1, sum_sizes]
      omega
    · rw [answered, push, placed_total, sum_sizes]
      omega
  | @held m ha hm =>
    have hnodup := (List.nodup_append.mp (List.nodup_append.mp h.owned.nodup).2.1).1
    have hsum := ha.2
    rw [hmod ha.1] at hsum
    refine ⟨?_, ?_, ?_, ?_, ?_, h.defined⟩
    · rw [answered, placed_blocks]
      exact h.owned.mono
    · rw [answered, placed_blocks]
      exact stacked_placed h.stacked ha (.inl rfl) hnodup hm
    · rw [answered, placed_blocks]
      exact (placed_le h.current ha).mpr hmeets
    · rw [answered, placed_used, hmod ha.1, sum_sizes]
      omega
    · rw [answered, placed_total, sum_sizes]
      omega
  | missing ha hm => exact absurd ((placed_le h.current ha).mpr hmeets) (Nat.not_le_of_lt hm)

end Request

theorem Inv.step (h : s.Inv) {c : Call} (hcounts : s.Counts c) (hmeets : s.Meets c) : (s.step limit c).Inv := by
  cases c with
  | request size => exact h.request hcounts hmeets
  | taken =>
    cases ha : s.pool.alloc limit s.made with
    | mk answer pool' =>
      have hstep : s.step limit .taken = { s with
          pool := pool'
          made := s.made + 1
          others := answer.toList ++ s.others } := by
        rw [BufferState.step, ha]
      rw [hstep]
      refine ⟨?_, h.stacked, h.current, h.used, h.total, h.defined⟩
      cases answer with
      | none => exact h.owned.alloc_none ha
      | some m => exact (h.owned.alloc_some ha).perm List.perm_middle.symm
  | given p =>
    cases p with
    | none => exact ⟨h.owned.free_none, h.stacked, h.current, h.used, h.total, h.defined⟩
    | some m =>
      rw [BufferState.step]
      split
      · next hm =>
        refine ⟨?_, h.stacked, h.current, h.used, h.total, h.defined⟩
        refine (h.owned.perm ?_).free_some
        exact ((List.perm_cons_erase hm).append_left _).trans List.perm_middle
      · exact h
  | destroyed m =>
    exact ⟨h.owned.sublist (List.erase_sublist.append_left _), h.stacked, h.current, h.used, h.total, h.defined⟩

structure Behind (s : BufferState) : Prop where
  current : s.buffer.m_iCurrentBlock ≤ s.buffer.m_bufferBlocks.length
  defined : s.undefined = false

/-- A step does something undefined exactly where the condition does not hold. -/
theorem Behind.step (h : s.Behind) (limit : UInt32) (c : Call) :
    (s.step limit c).Behind ∧ s.Meets c ∨ (s.step limit c).undefined = true ∧ ¬s.Meets c := by
  cases c with
  | request size =>
    obtain ⟨answer, p, b, hends, hstep⟩ := step_request limit s size h.defined
    rw [hstep]
    cases hends with
    | tooLarge what hsize => exact .inl ⟨⟨h.current, h.defined⟩, fun ha => absurd ha.1 (Nat.not_le_of_lt hsize)⟩
    | notEnough what _ htotal => exact .inl ⟨⟨h.current, h.defined⟩, fun ha => absurd ha.2 (Nat.not_le_of_lt htotal)⟩
    | refused what ha hnext hp =>
      refine .inl ⟨⟨?_, h.defined⟩, (BlockBuffer.placed_le h.current ha).mp hnext.le⟩
      rw [answered, BlockBuffer.placed_blocks, hnext]
    | grown ha hnext hp =>
      refine .inl ⟨⟨?_, h.defined⟩, (BlockBuffer.placed_le h.current ha).mp hnext.le⟩
      rw [answered, BlockBuffer.push, BlockBuffer.placed_blocks, hnext, List.length_append]
      exact Nat.le_add_right _ _
    | held ha hm =>
      have hle := (List.getElem?_eq_some_iff.mp hm).1.le
      refine .inl ⟨⟨?_, h.defined⟩, (BlockBuffer.placed_le h.current ha).mp hle⟩
      rwa [answered, BlockBuffer.placed_blocks]
    | missing ha hm =>
      exact .inr ⟨rfl, fun hmeets => absurd ((BlockBuffer.placed_le h.current ha).mpr hmeets) (Nat.not_le_of_lt hm)⟩
  | taken => exact .inl ⟨⟨h.current, h.defined⟩, trivial⟩
  | given p =>
    refine .inl ⟨?_, trivial⟩
    cases p with
    | none => exact ⟨h.current, h.defined⟩
    | some m =>
      rw [BufferState.step]
      split
      · exact ⟨h.current, h.defined⟩
      · exact h
  | destroyed m => exact .inl ⟨⟨h.current, h.defined⟩, trivial⟩

theorem Behind.step_defined (h : s.Behind) {c : Call} (hd : (s.step limit c).undefined = false) :
    (s.step limit c).Behind ∧ s.Meets c := by
  obtain hok | ⟨hbad, -⟩ := h.step limit c
  · exact hok
  · rw [hd] at hbad
    cases hbad

variable (limit) in
def SoundRun (s : BufferState) (cs : List Call) : Prop :=
  ∀ before later, cs = before ++ later → (before.foldl (step limit) s).Sound

/-- Whatever the buffer is asked for, and whatever the other owners do in between: the regions are sound in every state
of a run in which the counter does not overflow and no request goes to the block behind one that the pool has
refused. Where a request does go there, the run is not sound. -/
theorem regions_sound (hfresh : s.Fresh) (cs : List Call) :
    (AtEach (fun before c => (before.foldl (step limit) s).Counts c ∧ (before.foldl (step limit) s).Meets c) cs →
      SoundRun limit s cs) ∧
    (SoundRun limit s cs → AtEach (fun before c => (before.foldl (step limit) s).Meets c) cs) := by
  constructor
  · intro hall before later hsplit
    refine sound_of_inv ?_
    induction before using List.reverseRecOn generalizing later with
    | nil => exact inv_of_fresh hfresh
    | append_singleton before c ih =>
      rw [List.append_assoc] at hsplit
      obtain ⟨hcounts, hmeets⟩ := hall before c later hsplit
      rw [List.foldl_append]
      exact (ih _ hsplit).step hcounts hmeets
  · intro hsound before c later hsplit
    have hbehind : ∀ rest, cs = before ++ rest → (before.foldl (step limit) s).Behind := by
      clear hsplit
      induction before using List.reverseRecOn with
      | nil => exact fun _ _ => ⟨(inv_of_fresh hfresh).current, hfresh.defined⟩
      | append_singleton before d ih =>
        intro rest hrest
        have hdefined := (hsound _ _ hrest).defined
        rw [List.append_assoc] at hrest
        rw [List.foldl_append] at hdefined ⊢
        exact ((ih _ hrest).step_defined hdefined).1
    have hdefined := (hsound (before ++ [c]) later (by rw [hsplit, List.append_assoc]; rfl)).defined
    rw [List.foldl_append] at hdefined
    exact ((hbehind _ hsplit).step_defined hdefined).2

/-- The buffer of a sort, behind a pool that has counted `used` bytes. -/
def sortBuffer (used : Nat) : BufferState where
  pool := { m_iTotalMem := used }
  buffer := { m_iTotal := 64 * 1024 * 1024 }

theorem sortBuffer_fresh (used : Nat) : (sortBuffer used).Fresh := ⟨rfl, rfl, rfl, ⟨.nil, fun _ h => by cases h⟩⟩

/-- Two rows in two blocks, with a block for somebody else between them. -/
theorem regions_sound_rows : SoundRun 1073741824 (sortBuffer 0) [.request 400000, .taken, .request 600000, .request 400000] := by
  refine (regions_sound (sortBuffer_fresh 0) _).1 ?_
  rw [atEach_cons, atEach_cons, atEach_cons, atEach_cons]
  refine ⟨⟨fun _ => by decide, fun _ => .inl (by decide)⟩, ⟨trivial, trivial⟩, ⟨fun _ => by decide, fun ha => ?_⟩,
    ⟨fun _ => by decide, fun _ => .inr (by decide)⟩, atEach_nil⟩
  exact absurd ha.1 (by decide)

/-- The pool is at its limit: the first request is refused, and the second one is for the block behind the one that
is not there. -/
theorem refused_block_not_sound : (sortBuffer 1073741824).Fresh ∧
    ¬SoundRun 1073741824 (sortBuffer 1073741824) [.request 400000, .request 400000] := by
  refine ⟨sortBuffer_fresh _, fun h => ?_⟩
  have hundefined : ([.request 400000, .request 400000].foldl (step 1073741824) (sortBuffer 1073741824)).undefined = true := rfl
  rw [(h _ [] rfl).defined] at hundefined
  cases hundefined

end BufferState

end LevelPgServer
