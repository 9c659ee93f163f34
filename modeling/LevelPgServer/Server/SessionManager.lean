import LevelPgServer.Common.ParseNode
import LevelPgServer.Lib.ExceptRules

namespace LevelPgServer

open ExceptRules

/-- The sessions by their `m_iIndex`; a session itself is named by its place in `m_sessions`. -/
structure SessionManager where
  sessions : List (BitVec 32) := []
  free : List Nat := []
  deriving DecidableEq

/-- `SessionInfo::getIndex`. -/
def getIndex (m_iIndex : BitVec 32) : BitVec 16 := m_iIndex.setWidth 16

namespace SessionManager

/-- The number of pointers a `vector` can hold. -/
def maxSize : Nat := 2 ^ 60 - 1

/-- The conversion of an `int16_t` to `size_t`. -/
def toSize (i : BitVec 16) : Nat := (i.signExtend 64).toNat

/-- There is no session where the vector cannot grow and `emplace_back` throws. -/
def allocSession (m : SessionManager) : Fallible (Option Nat × SessionManager) :=
  match m.free.getLast? with
  | none =>
    let iIndex := m.sessions.length
    if iIndex < maxSize then .ok (some iIndex, { m with sessions := m.sessions ++ [BitVec.ofNat 32 iIndex] })
    else .ok (none, m)
  | some iIndex =>
    if iIndex < m.sessions.length then .ok (some iIndex, { m with free := m.free.dropLast }) else .error .undefined

def freeSession (m : SessionManager) (pWorker : Nat) : Fallible SessionManager :=
  match m.sessions[pWorker]? with
  | none => .error .undefined
  | some m_iIndex => .ok { m with free := m.free ++ [toSize (getIndex m_iIndex)] }

end SessionManager

/-- The manager and the sessions handed out and not given back. -/
structure SessionPool where
  manager : SessionManager := {}
  inUse : List Nat := []
  deriving DecidableEq

namespace SessionPool

open SessionManager

inductive Call
  | alloc
  | free (pWorker : Nat)
  deriving DecidableEq

def step (p : SessionPool) : Call → Fallible SessionPool
  | .alloc => do
    let (pWorker, m) ← p.manager.allocSession
    return { manager := m, inUse := pWorker.toList ++ p.inUse }
  | .free pWorker => do
    let m ← p.manager.freeSession pWorker
    return { manager := m, inUse := p.inUse.erase pWorker }

def run (p : SessionPool) : List Call → Fallible SessionPool
  | [] => .ok p
  | c :: cs => do
    let p' ← p.step c
    p'.run cs

/-- A session is given back while it is in use, so at most once before it is handed out again. -/
def Legal (p : SessionPool) : List Call → Prop
  | [] => True
  | .alloc :: cs => ∀ p', p.step .alloc = .ok p' → Legal p' cs
  | .free pWorker :: cs => pWorker ∈ p.inUse ∧ ∀ p', p.step (.free pWorker) = .ok p' → Legal p' cs

structure Sound (p : SessionPool) : Prop where
  valid : ∀ i ∈ p.manager.free, i < p.manager.sessions.length
  nodup : p.manager.free.Nodup
  idle : ∀ i ∈ p.manager.free, i ∉ p.inUse
  alloc : ∃ pWorker m, p.manager.allocSession = .ok (pWorker, m) ∧ ∀ i ∈ pWorker, i ∉ p.inUse

/-- Every session is either free or in use, once, and knows its place. -/
structure Complete (p : SessionPool) : Prop where
  bound : p.manager.sessions.length ≤ maxSize
  indices : p.manager.sessions = (List.range p.manager.sessions.length).map (BitVec.ofNat 32)
  perm : (p.manager.free ++ p.inUse).Perm (List.range p.manager.sessions.length)

theorem complete_new : Complete {} := ⟨Nat.zero_le _, rfl, .nil⟩

theorem Complete.nodup {p : SessionPool} (h : Complete p) : (p.manager.free ++ p.inUse).Nodup :=
  h.perm.nodup_iff.mpr List.nodup_range

theorem Complete.mem_iff {p : SessionPool} (h : Complete p) {i : Nat} :
    i ∈ p.manager.free ∨ i ∈ p.inUse ↔ i < p.manager.sessions.length := by
  rw [← List.mem_append, h.perm.mem_iff, List.mem_range]

theorem Complete.disjoint {p : SessionPool} (h : Complete p) {i : Nat} (hi : i ∈ p.manager.free) : i ∉ p.inUse :=
  fun hu => (List.nodup_append.mp h.nodup).2.2 i hi i hu rfl

/-- What `allocSession` does to a complete pool. -/
theorem Complete.allocSession {p : SessionPool} (h : Complete p) :
    ∃ pWorker m, p.manager.allocSession = .ok (pWorker, m) ∧ (∀ i ∈ pWorker, i ∉ p.inUse) ∧
      Complete { manager := m, inUse := pWorker.toList ++ p.inUse } := by
  rw [SessionManager.allocSession]
  cases hlast : p.manager.free.getLast? with
  | none =>
    have hfree : p.manager.free = [] := List.getLast?_eq_none_iff.mp hlast
    by_cases hroom : p.manager.sessions.length < maxSize
    · refine ⟨_, _, if_pos hroom, fun i hi hu => ?_, ?_, ?_, ?_⟩
      · cases hi
        exact absurd (h.mem_iff.mp (.inr hu)) (lt_irrefl _)
      · simpa using hroom
      · simpa [List.range_succ] using h.indices
      · have hperm := h.perm
        rw [hfree, List.nil_append] at hperm
        simp only [hfree, List.nil_append, Option.toList_some, List.length_append, List.length_singleton,
          List.range_succ, List.singleton_append]
        exact (hperm.cons _).trans (List.perm_append_singleton _ _).symm
    · exact ⟨_, _, if_neg hroom, by simp, h⟩
  | some iIndex =>
    obtain ⟨front, hfront⟩ := List.getLast?_eq_some_iff.mp hlast
    have hmem : iIndex ∈ p.manager.free := by simp [hfront]
    refine ⟨_, _, if_pos (h.mem_iff.mp (.inl hmem)), fun i hi hu => ?_, h.bound, h.indices, ?_⟩
    · cases hi
      exact h.disjoint hmem hu
    · have hperm := h.perm
      rw [hfront, List.append_assoc] at hperm
      simpa [hfront] using hperm

theorem Complete.sound {p : SessionPool} (h : Complete p) : Sound p := by
  obtain ⟨pWorker, m, halloc, hidle, -⟩ := h.allocSession
  exact ⟨fun i hi => h.mem_iff.mp (.inl hi), h.nodup.of_append_left, fun i => h.disjoint, pWorker, m, halloc, hidle⟩

theorem Complete.step_free_eq {p : SessionPool} (h : Complete p) {pWorker : Nat} (hu : pWorker ∈ p.inUse) :
    p.step (.free pWorker) = .ok
      { manager := { p.manager with free := p.manager.free ++ [toSize (getIndex (BitVec.ofNat 32 pWorker))] }
        inUse := p.inUse.erase pWorker } := by
  have hlt : pWorker < p.manager.sessions.length := h.mem_iff.mp (.inr hu)
  have hget : p.manager.sessions[pWorker]? = some (BitVec.ofNat 32 pWorker) := by
    rw [h.indices]
    simp [hlt]
  simp [step, SessionManager.freeSession, hget]

theorem toSize_getIndex_of_lt {i : Nat} (h : i < 32768) : toSize (getIndex (BitVec.ofNat 32 i)) = i := by
  have hmsb : (getIndex (BitVec.ofNat 32 i)).msb = false := by
    rw [BitVec.msb_eq_decide, getIndex, BitVec.toNat_setWidth, BitVec.toNat_ofNat]
    simp
    omega
  rw [toSize, BitVec.signExtend_eq_setWidth_of_msb_false hmsb, BitVec.toNat_setWidth, getIndex, BitVec.toNat_setWidth,
    BitVec.toNat_ofNat]
  omega

theorem toSize_getIndex_ne {i : Nat} (h : 32768 ≤ i) (hmax : i < maxSize) :
    toSize (getIndex (BitVec.ofNat 32 i)) ≠ i := by
  intro heq
  have hbound : i < 2 ^ 60 := hmax.trans (by decide)
  cases hmsb : (getIndex (BitVec.ofNat 32 i)).msb with
  | false =>
    have hlt : (getIndex (BitVec.ofNat 32 i)).toNat < 32768 := by
      have := BitVec.msb_eq_false_iff_two_mul_lt.mp hmsb
      omega
    rw [toSize, BitVec.signExtend_eq_setWidth_of_msb_false hmsb, BitVec.toNat_setWidth, Nat.mod_eq_of_lt (by omega)] at heq
    omega
  | true =>
    have hge : 2 ^ 63 ≤ toSize (getIndex (BitVec.ofNat 32 i)) := by
      have hsign : ((getIndex (BitVec.ofNat 32 i)).signExtend 64).msb = true := by
        rw [BitVec.msb_signExtend]
        simpa using hmsb
      have := BitVec.msb_eq_true_iff_two_mul_ge.mp hsign
      rw [toSize]
      omega
    omega

/-- A session that is given back keeps the pool complete when its index fits. -/
theorem Complete.step_free {p : SessionPool} (h : Complete p) {pWorker : Nat} (hu : pWorker ∈ p.inUse)
    (hlt : pWorker < 32768) : ∃ p', p.step (.free pWorker) = .ok p' ∧ Complete p' := by
  refine ⟨_, h.step_free_eq hu, h.bound, h.indices, ?_⟩
  have hperm : (p.manager.free ++ [pWorker] ++ p.inUse.erase pWorker).Perm (p.manager.free ++ p.inUse) := by
    rw [List.append_assoc]
    exact (List.perm_cons_erase hu).symm.append_left _
  rw [toSize_getIndex_of_lt hlt]
  exact hperm.trans h.perm

theorem Complete.step_alloc {p : SessionPool} (h : Complete p) : ∃ p', p.step .alloc = .ok p' ∧ Complete p' := by
  obtain ⟨pWorker, m, halloc, -, hcomplete⟩ := h.allocSession
  exact ⟨_, by rw [step, halloc]; rfl, hcomplete⟩

/-- Otherwise a wrong index gets into `m_free`: one of no session, one that is free already, or
one that is in use. -/
theorem Complete.step_free_unsound {p : SessionPool} (h : Complete p) {pWorker : Nat} (hu : pWorker ∈ p.inUse)
    (hge : 32768 ≤ pWorker) : ∃ p', p.step (.free pWorker) = .ok p' ∧ ¬ Sound p' := by
  refine ⟨_, h.step_free_eq hu, fun hs => ?_⟩
  have hlt : pWorker < p.manager.sessions.length := h.mem_iff.mp (.inr hu)
  have hne := toSize_getIndex_ne hge (hlt.trans_le h.bound)
  generalize toSize (getIndex (BitVec.ofNat 32 pWorker)) = i at hs hne
  have hvalid : i < p.manager.sessions.length := hs.valid i (by simp)
  obtain hfree | huse := h.mem_iff.mpr hvalid
  · have hnodup := hs.nodup
    simp only [List.nodup_append] at hnodup
    exact hnodup.2.2 i hfree i (by simp) rfl
  · exact hs.idle i (by simp) ((List.mem_erase_of_ne hne).mpr huse)

def AlwaysSound (p : SessionPool) (cs : List Call) : Prop := ∀ first, first <+: cs → ∃ p', p.run first = .ok p' ∧ p'.Sound

theorem alwaysSound_cons {p : SessionPool} {c : Call} {cs : List Call} :
    p.AlwaysSound (c :: cs) ↔ p.Sound ∧ ∃ p', p.step c = .ok p' ∧ p'.AlwaysSound cs := by
  constructor
  · intro h
    obtain ⟨p0, hrun, hs⟩ := h [] (List.nil_prefix)
    cases hrun
    obtain ⟨p1, hrun1, -⟩ := h [c] (by simp)
    obtain ⟨p', hstep, hp'⟩ := bind_eq_ok.mp hrun1
    cases hp'
    refine ⟨hs, p1, hstep, fun first hfirst => ?_⟩
    obtain ⟨p2, hrun2, hs2⟩ := h (c :: first) ((List.prefix_cons_inj c).mpr hfirst)
    refine ⟨p2, ?_, hs2⟩
    simpa [run, hstep] using hrun2
  · rintro ⟨hs, p1, hstep, h⟩ first hfirst
    cases first with
    | nil => exact ⟨p, rfl, hs⟩
    | cons d first =>
      obtain ⟨rfl, hrest⟩ := List.cons_prefix_cons.mp hfirst
      obtain ⟨p2, hrun2, hs2⟩ := h first hrest
      exact ⟨p2, by simpa [run, hstep] using hrun2, hs2⟩

theorem Complete.staysSound_iff {p : SessionPool} (h : Complete p) {cs : List Call} (hlegal : p.Legal cs) :
    p.AlwaysSound cs ↔ ∀ pWorker, Call.free pWorker ∈ cs → pWorker < 32768 := by
  induction cs generalizing p with
  | nil =>
    refine iff_of_true (fun first hfirst => ?_) (by simp)
    rw [List.prefix_nil.mp hfirst]
    exact ⟨p, rfl, h.sound⟩
  | cons c cs ih =>
    rw [alwaysSound_cons]
    cases c with
    | alloc =>
      obtain ⟨p', hstep, hcomplete⟩ := h.step_alloc
      have ih' := ih hcomplete (hlegal p' hstep)
      simp [h.sound, hstep, ih']
    | free pWorker =>
      obtain ⟨hu, hlegal⟩ := hlegal
      by_cases hlt : pWorker < 32768
      · obtain ⟨p', hstep, hcomplete⟩ := h.step_free hu hlt
        have ih' := ih hcomplete (hlegal p' hstep)
        simp only [h.sound, hstep, Except.ok.injEq, exists_eq_left', ih', true_and, List.mem_cons, Call.free.injEq]
        constructor
        · rintro hall q (rfl | hq)
          · exact hlt
          · exact hall q hq
        · exact fun hall q hq => hall q (.inr hq)
      · refine iff_of_false ?_ fun hall => hlt (hall pWorker (by simp))
        rintro ⟨-, p', hstep, hsound⟩
        obtain ⟨p1, hstep1, hnot⟩ := h.step_free_unsound hu (not_lt.mp hlt)
        rw [hstep1] at hstep
        cases hstep
        obtain ⟨p2, hrun, hs⟩ := hsound [] List.nil_prefix
        cases hrun
        exact hnot hs

/-- From the start of the server on, the pool is sound exactly while no session with an index
from 32768 on is given back. -/
theorem alwaysSound_iff {cs : List Call} (hlegal : Legal {} cs) :
    AlwaysSound {} cs ↔ ∀ pWorker, Call.free pWorker ∈ cs → pWorker < 32768 :=
  complete_new.staysSound_iff hlegal

theorem alwaysSound_iff_twoSessions :
    AlwaysSound {} [.alloc, .alloc, .free 0, .alloc] ↔
      ∀ pWorker, Call.free pWorker ∈ [.alloc, .alloc, .free 0, .alloc] → pWorker < 32768 := by
  refine alwaysSound_iff fun p1 h1 p2 h2 => ?_
  cases h1
  cases h2
  exact ⟨by decide, fun _ _ _ _ => trivial⟩

theorem Complete.run_alloc {p : SessionPool} (h : Complete p) (hfree : p.manager.free = []) {n : Nat}
    (hn : p.manager.sessions.length + n ≤ maxSize) :
    ∃ p', p.run (List.replicate n .alloc) = .ok p' ∧ Legal p (List.replicate n .alloc) ∧ Complete p' ∧
      p'.manager.free = [] ∧ p'.manager.sessions.length = p.manager.sessions.length + n := by
  induction n generalizing p with
  | zero => exact ⟨p, rfl, trivial, h, hfree, rfl⟩
  | succ n ih =>
    have hroom : p.manager.sessions.length < maxSize := by omega
    obtain ⟨p1, hstep, hcomplete⟩ := h.step_alloc
    have hp1 : p1 =
        { manager := { p.manager with sessions := p.manager.sessions ++ [BitVec.ofNat 32 p.manager.sessions.length] }
          inUse := p.manager.sessions.length :: p.inUse } := by
      have hstep' := hstep
      simp [step, SessionManager.allocSession, hfree, hroom] at hstep'
      simp [← hstep', hfree]
    have hlen : p1.manager.sessions.length = p.manager.sessions.length + 1 := by simp [hp1]
    obtain ⟨p', hrun, hlegal, hcomplete', hfree', hlen'⟩ := ih hcomplete (by simp [hp1, hfree]) (by omega)
    refine ⟨p', ?_, fun p2 hstep2 => ?_, hcomplete', hfree', by omega⟩
    · rw [List.replicate_succ, run, hstep]
      exact hrun
    · rw [hstep] at hstep2
      cases hstep2
      exact hlegal

theorem run_append (p : SessionPool) (cs ds : List Call) :
    p.run (cs ++ ds) = (do
      let p' ← p.run cs
      p'.run ds) := by
  induction cs generalizing p with
  | nil => rfl
  | cons c cs ih =>
    rw [List.cons_append, run, run, bind_assoc]
    exact congrArg _ (funext fun p' => ih p')

theorem Legal.append {p : SessionPool} {cs ds : List Call} (h : p.Legal cs)
    (h' : ∀ p', p.run cs = .ok p' → p'.Legal ds) : p.Legal (cs ++ ds) := by
  induction cs generalizing p with
  | nil => exact h' p rfl
  | cons c cs ih =>
    have hnext : ∀ p', p.step c = .ok p' → p'.Legal cs → p'.Legal (cs ++ ds) := fun p' hstep hlegal =>
      ih hlegal fun q hq => h' q (by rw [run, hstep]; exact hq)
    cases c with
    | alloc => exact fun p' hstep => hnext p' hstep (h p' hstep)
    | free pWorker => exact ⟨h.1, fun p' hstep => hnext p' hstep (h.2 p' hstep)⟩

/-- The session after the first 32768 comes back as an index of no session. -/
theorem Complete.free_last {cs : List Call} {p : SessionPool} (hcomplete : Complete p) (hrun : run {} cs = .ok p)
    (hlegal : Legal {} cs) (hfree : p.manager.free = []) (hlen : p.manager.sessions.length = 32769) :
    Legal {} (cs ++ [.free 32768]) ∧
      (∃ p', run {} (cs ++ [.free 32768]) = .ok p' ∧ p'.manager.free = [18446744073709518848] ∧
        p'.step .alloc = .error .undefined) ∧
      ¬ AlwaysSound {} (cs ++ [.free 32768]) := by
  have hu : 32768 ∈ p.inUse := by
    have hmem := hcomplete.mem_iff (i := 32768)
    simpa [hfree, hlen] using hmem
  have hsize : toSize (getIndex (BitVec.ofNat 32 32768)) = 18446744073709518848 := by decide
  have hstep := hcomplete.step_free_eq hu
  rw [hfree, List.nil_append, hsize] at hstep
  have hrun' := run_append {} cs [.free 32768]
  rw [hrun, ok_bind, run, hstep] at hrun'
  refine ⟨hlegal.append fun p' hp' => ?_, ⟨_, hrun', rfl, ?_⟩, fun hs => ?_⟩
  · rw [hrun] at hp'
    cases hp'
    exact ⟨hu, fun _ _ => trivial⟩
  · simp [step, SessionManager.allocSession, hlen]
  · obtain ⟨p', hp', hsound⟩ := hs _ (List.prefix_refl _)
    rw [hrun'] at hp'
    cases hp'
    have hvalid := hsound.valid 18446744073709518848 (by simp)
    simp [hlen] at hvalid

theorem session32768_freed :
    Legal {} (List.replicate 32769 .alloc ++ [.free 32768]) ∧
      (∃ p, run {} (List.replicate 32769 .alloc ++ [.free 32768]) = .ok p ∧
        p.manager.free = [18446744073709518848] ∧ p.step .alloc = .error .undefined) ∧
      ¬ AlwaysSound {} (List.replicate 32769 .alloc ++ [.free 32768]) := by
  obtain ⟨p, hrun, hlegal, hcomplete, hfree, hlen⟩ := complete_new.run_alloc rfl (n := 32769) (by decide)
  exact hcomplete.free_last hrun hlegal hfree hlen

end SessionPool

end LevelPgServer
