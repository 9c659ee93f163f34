import LevelPgServer.Server.Continuations
import Mathlib.Data.List.TakeWhile

namespace LevelPgServer.PayloadReads

open PostgresProtocol PgDataReader ByteOrder ExceptRules Connection

variable {α β : Type}

/-- `readStartup` with the number of sessions in the table that a cancel request looks its session up in. -/
def readStartupOf (sessions : Nat) (block : Bytes) (len : Nat) : Fallible StartupAction := do
  let target ← cancelTarget block len
  match target with
  | some i => if sessions ≤ i then .error .undefined else readStartup block len
  | none => readStartup block len

/-- A reader stays inside the payload: whatever the block holds behind it, even nothing, the reader
ends in the same way, with views into the payload or an `IOException`. -/
def StaysInside (views : α → List Bytes) (read : Bytes → Fallible α) (payload : Bytes) : Prop :=
  ∃ x, (∀ tail, read (payload ++ tail) = x) ∧
    match x with
    | .ok a => ∀ v ∈ views a, v <:+: payload
    | .error f => ∃ what, f = .thrown (.io what)

section Payloads

def bigEndian (bs : Bytes) : Int := intOfLittle bs.reverse

/-- `p` starts with a terminated string, and `rest` is behind it. -/
def Terminated (s p rest : Bytes) : Prop := 0 ∉ s ∧ p = s ++ 0 :: rest

/-- `p` starts with `n` bytes, and `rest` is behind them. -/
def Field (n : Nat) (bs p rest : Bytes) : Prop := bs.length = n ∧ p = bs ++ rest

def QueryFits (p : Bytes) : Prop := ∃ sql rest, Terminated sql p rest

def ParseFits (p : Bytes) : Prop :=
  ∃ s p1, Terminated s p p1 ∧ ∃ sql p2, Terminated sql p1 p2 ∧ ∃ bs rest, Field 2 bs p2 rest

/-- A count, and behind the expected one what comes next. -/
def NumberFits (n : Nat) (next : Bytes → Prop) (p : Bytes) : Prop :=
  ∃ bs rest, Field 2 bs p rest ∧ ((bigEndian bs % 2 ^ 64).toNat = n → next rest)

def ModesFit : Nat → (Bytes → Prop) → Bytes → Prop
  | 0, next, p => next p
  | n + 1, next, p => ∃ bs rest, Field 2 bs p rest ∧ (bigEndian bs = 0 ∨ bigEndian bs = 1 → ModesFit n next rest)

def ValuesFit : Nat → Bytes → Prop
  | 0, _ => True
  | n + 1, p => ∃ bs p1, Field 4 bs p p1 ∧ (0 ≤ bigEndian bs → ∃ v rest, Field (bigEndian bs).toNat v p1 rest ∧ ValuesFit n rest)

def BindFits (n : Nat) (p : Bytes) : Prop :=
  ∃ portal p1, Terminated portal p p1 ∧ ∃ stmt p2, Terminated stmt p1 p2 ∧
    NumberFits n (ModesFit n (NumberFits n (ValuesFit n))) p2

inductive OptionsFit : Bytes → Prop
  | done : OptionsFit []
  | last (rest : Bytes) : OptionsFit (0 :: rest)
  | option {s v p p1 p2 : Bytes} : s ≠ [] → Terminated s p p1 → Terminated v p1 p2 → OptionsFit p2 → OptionsFit p

def StartupFits (sessions : Nat) (p : Bytes) : Prop :=
  ∃ bs p1, Field 4 bs p p1 ∧
    (bigEndian bs = cancelRequestCode → ∃ pid p2, Field 4 pid p1 p2 ∧ (∃ auth p3, Field 4 auth p2 p3) ∧
      (bigEndian pid % 2 ^ 32).toNat < sessions) ∧
    (bigEndian bs ≠ cancelRequestCode → bigEndian bs ≠ negotiateSslCode →
      3 ≤ bigEndian bs / 2 ^ 16 % 2 ^ 32 → OptionsFit p1)

end Payloads

section Readable

/-- A result that does not come of a read behind the block. -/
def Safe (P : α → Prop) : Fallible α → Prop
  | .ok a => P a
  | .error f => ∃ what, f = .thrown (.io what)

theorem safe_bind {P : β → Prop} {x : Fallible α} {f : α → Fallible β} : Safe P (x >>= f) ↔ Safe (fun a => Safe P (f a)) x := by
  cases x <;> rfl

@[simp] theorem safe_ok {P : α → Prop} {a : α} : Safe P (.ok a) ↔ P a := Iff.rfl

@[simp] theorem safe_throwIO {P : α → Prop} {what : String} : Safe P ( throwIO what) ↔ True := iff_of_true ⟨what, rfl⟩ trivial

@[simp] theorem safe_undefined {P : α → Prop} : Safe P (.error .undefined) ↔ False :=
  iff_of_false (fun ⟨_, h⟩ => by cases h) id

/-- The reader stands before `p`, the rest of the payload. -/
structure At (payload p : Bytes) (r : PgDataReader) : Prop where
  block : r.block = payload
  len : r.len = payload.length
  bound : r.current ≤ payload.length
  rest : payload.drop r.current = p

variable {payload p : Bytes} {r : PgDataReader}

theorem at_start (payload : Bytes) : At payload payload { block := payload, len := payload.length } :=
  ⟨rfl, rfl, Nat.zero_le _, rfl⟩

theorem At.length (h : At payload p r) : p.length = payload.length - r.current := by rw [← h.rest, List.length_drop]

theorem At.advance (h : At payload p r) {n : Nat} {bs rest : Bytes} (hf : Field n bs p rest) :
    At payload rest (r.advance n) := by
  obtain ⟨hlen, hp⟩ := hf
  have hl := h.length
  have hbound := h.bound
  rw [hp, List.length_append, hlen] at hl
  refine ⟨h.block, h.len, ?_, ?_⟩
  · rw [PgDataReader.advance]
    dsimp only
    omega
  · rw [PgDataReader.advance]
    dsimp only
    rw [← List.drop_drop, h.rest, hp, List.drop_left' hlen]

theorem At.hasData (h : At payload p r) : r.hasData = true ↔ p ≠ [] := by
  have hl := h.length
  have hbound := h.bound
  rw [PgDataReader.hasData, h.len, decide_eq_true_iff, ← List.length_pos_iff]
  omega

theorem take_eq (h : At payload p r) {n : Nat} {bs rest : Bytes} (hf : Field n bs p rest) : r.take n = .ok bs := by
  have hl := h.length
  have hbound := h.bound
  rw [PgDataReader.take, h.block, h.rest, hf.2, List.take_left' hf.1, if_neg]
  rw [hf.2, List.length_append, hf.1] at hl
  omega

theorem safe_take (h : At payload p r) {n : Nat} {P : Bytes → Prop} :
    Safe P (r.take n) ↔ ∃ bs rest, Field n bs p rest ∧ P bs := by
  by_cases hn : n ≤ p.length
  · have hf : Field n (p.take n) p (p.drop n) := ⟨by rw [List.length_take]; omega, (List.take_append_drop n p).symm⟩
    rw [take_eq h hf]
    constructor
    · exact fun hp => ⟨_, _, hf, hp⟩
    · rintro ⟨bs, rest, hf', hp⟩
      have hbs : p.take n = bs := by rw [hf'.2, List.take_left' hf'.1]
      rw [hbs]
      exact hp
  · have hl := h.length
    have hbound := h.bound
    rw [PgDataReader.take, h.block, if_pos (by omega)]
    refine iff_of_false (fun hs => safe_undefined.mp hs) ?_
    rintro ⟨bs, rest, hf, -⟩
    rw [hf.2, List.length_append, hf.1] at hn
    omega

theorem takeWhile_terminated {s rest : Bytes} (hs : 0 ∉ s) : (s ++ 0 :: rest).takeWhile (fun b => b != 0) = s := by
  rw [List.takeWhile_append_of_pos]
  · simp
  · intro b hb
    refine bne_iff_ne.mpr ?_
    rintro rfl
    exact hs hb

theorem safe_getNextString (h : At payload p r) {P : Bytes × PgDataReader → Prop} {Q : Bytes → Bytes → Prop}
    (hnext : ∀ s rest r', Terminated s p rest → At payload rest r' → (P (s, r') ↔ Q s rest)) :
    Safe P r.getNextString ↔ ∃ s rest, Terminated s p rest ∧ Q s rest := by
  rw [PgDataReader.getNextString, h.block, h.rest]
  by_cases hz : 0 ∈ p
  · obtain ⟨s, rest, rfl, hs⟩ := List.eq_append_cons_of_mem hz
    simp only [takeWhile_terminated hs]
    rw [if_neg (by simp)]
    have hat : At payload rest (r.advance (s.length + 1)) :=
      @At.advance _ _ _ h _ (s ++ [0]) _ ⟨by simp, by simp⟩
    rw [safe_ok, hnext _ _ _ ⟨hs, rfl⟩ hat]
    constructor
    · exact fun hn => ⟨s, rest, ⟨hs, rfl⟩, hn⟩
    · rintro ⟨s', rest', ⟨hs', he⟩, hn⟩
      obtain rfl : s = s' := by rw [← @takeWhile_terminated _ rest hs, he, takeWhile_terminated hs']
      obtain rfl : rest = rest' := by simpa using he
      exact hn
  · have hall : p.takeWhile (fun b => b != 0) = p := List.takeWhile_eq_self_iff.mpr fun b hb => by
      refine bne_iff_ne.mpr ?_
      rintro rfl
      exact hz hb
    simp only [hall, if_true, safe_undefined, false_iff]
    rintro ⟨s, rest, ⟨-, rfl⟩, -⟩
    exact hz (by simp)

theorem safe_getNextShort (h : At payload p r) {P : Int × PgDataReader → Prop} {Q : Bytes → Bytes → Prop}
    (hnext : ∀ bs rest r', Field 2 bs p rest → At payload rest r' → (P (bigEndian bs, r') ↔ Q bs rest)) :
    Safe P r.getNextShort ↔ ∃ bs rest, Field 2 bs p rest ∧ Q bs rest := by
  rw [PgDataReader.getNextShort, safe_bind, safe_take h]
  exact exists_congr fun bs => exists_congr fun rest => and_congr_right fun hf => hnext _ _ _ hf (h.advance hf)

theorem safe_getNextInt (h : At payload p r) {P : Int × PgDataReader → Prop} {Q : Bytes → Bytes → Prop}
    (hnext : ∀ bs rest r', Field 4 bs p rest → At payload rest r' → (P (bigEndian bs, r') ↔ Q bs rest)) :
    Safe P r.getNextInt ↔ ∃ bs rest, Field 4 bs p rest ∧ Q bs rest := by
  rw [PgDataReader.getNextInt, safe_bind, safe_take h]
  exact exists_congr fun bs => exists_congr fun rest => and_congr_right fun hf => hnext _ _ _ hf (h.advance hf)

theorem safe_getNextStringWithLen (h : At payload p r) {P : Bytes × PgDataReader → Prop} {Q : Bytes → Prop}
    (hnext : ∀ s rest r', At payload rest r' → (P (s, r') ↔ Q rest)) :
    Safe P r.getNextStringWithLen ↔
      ∃ bs p1, Field 4 bs p p1 ∧ (0 ≤ bigEndian bs → ∃ v rest, Field (bigEndian bs).toNat v p1 rest ∧ Q rest) := by
  rw [PgDataReader.getNextStringWithLen, safe_bind, safe_getNextInt h
    (Q := fun bs p1 => 0 ≤ bigEndian bs → ∃ s rest, Field (bigEndian bs).toNat s p1 rest ∧ Q rest)]
  intro bs rest r' _ hat
  dsimp only
  split
  · exact iff_of_true ( safe_throwIO.mpr trivial) fun hv => by omega
  · rw [safe_bind, safe_take hat]
    refine ⟨fun ⟨s, rest', hf, hp⟩ _ => ⟨s, rest', hf, (hnext _ _ _ (hat.advance hf)).mp hp⟩, fun hp => ?_⟩
    obtain ⟨s, rest', hf, hn⟩ := hp (by omega)
    exact ⟨s, rest', hf, (hnext _ _ _ (hat.advance hf)).mpr hn⟩

theorem safe_readQueryInfo (payload : Bytes) : Safe (fun _ => True) (readQueryInfo payload payload.length) ↔ QueryFits payload := by
  rw [readQueryInfo, safe_bind, safe_getNextString (at_start payload) (Q := fun _ _ => True) fun _ _ _ _ _ => Iff.rfl]
  simp [QueryFits]

theorem safe_readParseInfo (payload : Bytes) : Safe (fun _ => True) (readParseInfo payload payload.length) ↔ ParseFits payload := by
  rw [readParseInfo, safe_bind, safe_getNextString (at_start payload)
    (Q := fun _ p1 => ∃ sql p2, Terminated sql p1 p2 ∧ ∃ bs rest, Field 2 bs p2 rest)]
  · rfl
  intro s p1 r1 _ h1
  rw [safe_bind, safe_getNextString h1 (Q := fun _ p2 => ∃ bs rest, Field 2 bs p2 rest)]
  intro sql p2 r2 _ h2
  rw [safe_bind, safe_getNextShort h2 (Q := fun _ _ => True) fun _ _ _ _ _ => Iff.rfl]
  simp

theorem safe_checkParamNumber {what : String} {v : Int} {n : Nat} {P : Unit → Prop} :
    Safe P (checkParamNumber what v n) ↔ ((v % 2 ^ 64).toNat = n → P ()) := by
  rw [checkParamNumber]
  split
  · next h => exact iff_of_true ( safe_throwIO.mpr trivial) fun he => absurd he h
  · next h => exact ⟨fun hp _ => hp, fun hp => hp (not_not.mp h)⟩

theorem safe_readParamModes {n : Nat} (h : At payload p r) {P : List Bool × PgDataReader → Prop} {Q : Bytes → Prop}
    (hnext : ∀ modes rest r', At payload rest r' → (P (modes, r') ↔ Q rest)) :
    Safe P (readParamModes n r) ↔ ModesFit n Q p := by
  induction n generalizing p r P with
  | zero => exact hnext _ _ _ h
  | succ n ih =>
    rw [readParamModes, ModesFit, safe_bind,
      safe_getNextShort h (Q := fun bs rest => bigEndian bs = 0 ∨ bigEndian bs = 1 → ModesFit n Q rest)]
    intro bs rest r' _ hat
    dsimp only
    split
    · next hv =>
      rw [safe_bind, ih hat fun modes rest' r'' hat' => hnext (decide (bigEndian bs = 1) :: modes) rest' r'' hat']
      exact ⟨fun h _ => h, fun h => h hv⟩
    · next hv => exact iff_of_true ( safe_throwIO.mpr trivial) fun h => absurd h hv

theorem safe_readParamValues {n : Nat} (h : At payload p r) : Safe (fun _ => True) (readParamValues n r) ↔ ValuesFit n p := by
  induction n generalizing p r with
  | zero => exact Iff.rfl
  | succ n ih =>
    rw [readParamValues, ValuesFit, safe_bind, safe_getNextStringWithLen h (Q := ValuesFit n)]
    intro s rest r' hat
    rw [safe_bind]
    exact ih hat

theorem safe_readBindParam (payload : Bytes) (n : Nat) :
    Safe (fun _ => True) (readBindParam payload payload.length n) ↔ BindFits n payload := by
  rw [readBindParam, safe_bind, safe_getNextString (at_start payload) (Q := fun _ p1 => ∃ stmt p2, Terminated stmt p1 p2 ∧
    NumberFits n (ModesFit n (NumberFits n (ValuesFit n))) p2)]
  · rfl
  intro s p1 r1 _ h1
  rw [safe_bind, safe_getNextString h1 (Q := fun _ p2 => NumberFits n (ModesFit n (NumberFits n (ValuesFit n))) p2)]
  intro stmt p2 r2 _ h2
  rw [safe_bind, safe_getNextShort h2
    (Q := fun bs rest => (bigEndian bs % 2 ^ 64).toNat = n → ModesFit n (NumberFits n (ValuesFit n)) rest)]
  · rfl
  intro bs p3 r3 _ h3
  rw [safe_bind, safe_checkParamNumber]
  refine imp_congr_right fun _ => ?_
  rw [safe_bind, safe_readParamModes h3 (Q := NumberFits n (ValuesFit n))]
  intro modes p4 r4 h4
  rw [safe_bind, safe_getNextShort h4 (Q := fun bs rest => (bigEndian bs % 2 ^ 64).toNat = n → ValuesFit n rest)]
  · rfl
  intro bs' p5 r5 _ h5
  rw [safe_bind, safe_checkParamNumber]
  refine imp_congr_right fun _ => ?_
  rw [safe_bind]
  exact safe_readParamValues h5

/-- Every option takes at least two bytes, so that the fuel lasts. -/
theorem safe_readOptions {fuel : Nat} (h : At payload p r) (hfuel : p.length < fuel) :
    Safe (fun _ => True) (readOptions fuel r) ↔ OptionsFit p := by
  induction fuel generalizing p r with
  | zero => omega
  | succ fuel ih =>
    rw [readOptions]
    by_cases hd : r.hasData = true
    · rw [if_pos hd, safe_bind, safe_getNextString h
        (Q := fun s p1 => s ≠ [] → ∃ v p2, Terminated v p1 p2 ∧ OptionsFit p2)]
      · constructor
        · rintro ⟨s, p1, hs, hnext⟩
          by_cases hn : s = []
          · rw [hs.2, hn]
            exact .last p1
          · obtain ⟨v, p2, hv, ho⟩ := hnext hn
            exact .option hn hs hv ho
        · intro ho
          cases ho with
          | done => exact absurd rfl (h.hasData.mp hd)
          | last rest => exact ⟨[], rest, ⟨by simp, rfl⟩, fun hn => absurd rfl hn⟩
          | @option s v _ p1 p2 hn hs hv ho => exact ⟨s, p1, hs, fun _ => ⟨v, p2, hv, ho⟩⟩
      · intro s p1 r1 hs h1
        dsimp only
        split
        · next hn => exact iff_of_true trivial fun h => absurd hn h
        · next hn =>
          rw [safe_bind, safe_getNextString h1 (Q := fun _ p2 => OptionsFit p2)]
          · exact ⟨fun h _ => h, fun h => h hn⟩
          · intro v p2 r2 hv h2
            refine ih h2 ?_
            rw [hs.2, hv.2] at hfuel
            simp only [List.length_append, List.length_cons] at hfuel
            omega
    · rw [if_neg hd]
      have hp : p = [] := by_contra fun hp => hd (h.hasData.mpr hp)
      rw [hp]
      exact iff_of_true trivial .done

/-- The part of `readStartup` behind the requests. -/
theorem safe_readStartup {bs p1 : Bytes} (hf : Field 4 bs payload p1) :
    Safe (fun _ => True) (readStartup payload payload.length) ↔
      (bigEndian bs = cancelRequestCode → ∃ pid p2, Field 4 pid p1 p2 ∧ ∃ auth p3, Field 4 auth p2 p3) ∧
        (bigEndian bs ≠ cancelRequestCode → bigEndian bs ≠ negotiateSslCode →
          3 ≤ bigEndian bs / 2 ^ 16 % 2 ^ 32 → OptionsFit p1) := by
  have h := at_start payload
  have h1 := h.advance hf
  have hint : ({ block := payload, len := payload.length } : PgDataReader).getNextInt =
      .ok (bigEndian bs, ({ block := payload, len := payload.length } : PgDataReader).advance 4) := by
    rw [PgDataReader.getNextInt, take_eq h hf]
    rfl
  rw [readStartup, hint, ok_bind]
  dsimp only
  by_cases hcode : bigEndian bs = cancelRequestCode
  · rw [if_pos hcode, safe_bind, safe_getNextInt h1 (Q := fun _ p2 => ∃ auth p3, Field 4 auth p2 p3)]
    · exact ⟨fun hc => ⟨fun _ => hc, fun hn => absurd hcode hn⟩, fun hc => hc.1 hcode⟩
    · intro pid p2 r2 _ h2
      rw [safe_bind, safe_getNextInt h2 (Q := fun _ _ => True) fun _ _ _ _ _ => safe_throwIO]
      simp
  · rw [if_neg hcode]
    refine Iff.trans ?_ (and_iff_right fun hc => absurd hc hcode).symm
    rw [forall_prop_of_true hcode]
    split
    · next hssl => exact iff_of_true trivial fun hn => absurd hssl hn
    · next hssl =>
      rw [forall_prop_of_true hssl]
      split
      · next hmajor => exact iff_of_true ( safe_throwIO.mpr trivial) fun hm => by omega
      · next hmajor =>
        have hlen : p1.length < payload.length + 1 := by
          rw [hf.2, List.length_append]
          omega
        rw [safe_bind, forall_prop_of_true (not_lt.mp hmajor)]
        exact safe_readOptions h1 hlen

theorem safe_cancelTarget {bs p1 : Bytes} (hf : Field 4 bs payload p1) {P : Option Nat → Prop} :
    Safe P (cancelTarget payload payload.length) ↔
      (bigEndian bs = cancelRequestCode → ∃ pid p2, Field 4 pid p1 p2 ∧ (∃ auth p3, Field 4 auth p2 p3) ∧
        P (some (bigEndian pid % 2 ^ 32).toNat)) ∧ (bigEndian bs ≠ cancelRequestCode → P none) := by
  have h := at_start payload
  have h1 := h.advance hf
  have hint : ({ block := payload, len := payload.length } : PgDataReader).getNextInt =
      .ok (bigEndian bs, ({ block := payload, len := payload.length } : PgDataReader).advance 4) := by
    rw [PgDataReader.getNextInt, take_eq h hf]
    rfl
  rw [cancelTarget, hint, ok_bind]
  dsimp only
  by_cases hcode : bigEndian bs = cancelRequestCode
  · rw [if_pos hcode, safe_bind, safe_getNextInt h1
      (Q := fun pid p2 => (∃ auth p3, Field 4 auth p2 p3) ∧ P (some (bigEndian pid % 2 ^ 32).toNat))]
    · exact ⟨fun hc => ⟨fun _ => hc, fun hn => absurd hcode hn⟩, fun hc => hc.1 hcode⟩
    · intro pid p2 r2 _ h2
      rw [safe_bind, safe_getNextInt h2 (Q := fun _ _ => P (some (bigEndian pid % 2 ^ 32).toNat)) fun _ _ _ _ _ => Iff.rfl]
      exact ⟨fun ⟨auth, p3, hf', hp⟩ => ⟨⟨auth, p3, hf'⟩, hp⟩, fun ⟨⟨auth, p3, hf'⟩, hp⟩ => ⟨auth, p3, hf', hp⟩⟩
  · rw [if_neg hcode]
    exact ⟨fun hp => ⟨fun hc => absurd hc hcode, fun _ => hp⟩, fun hp => hp.2 hcode⟩

theorem safe_readStartupOf (payload : Bytes) (sessions : Nat) :
    Safe (fun _ => True) (readStartupOf sessions payload payload.length) ↔ StartupFits sessions payload := by
  have h := at_start payload
  by_cases hlen : 4 ≤ payload.length
  · obtain ⟨bs, p1, hf⟩ : ∃ bs p1, Field 4 bs payload p1 :=
      ⟨payload.take 4, payload.drop 4, by rw [List.length_take]; omega, (List.take_append_drop 4 payload).symm⟩
    have hunique : ∀ bs' p1', Field 4 bs' payload p1' → bs' = bs ∧ p1' = p1 := fun bs' p1' hf' => by
      obtain ⟨hl, he⟩ := hf'
      exact List.append_inj (he.symm.trans hf.2) (hl.trans hf.1.symm)
    have hfits : StartupFits sessions payload ↔
        (bigEndian bs = cancelRequestCode → ∃ pid p2, Field 4 pid p1 p2 ∧ (∃ auth p3, Field 4 auth p2 p3) ∧
          (bigEndian pid % 2 ^ 32).toNat < sessions) ∧
        (bigEndian bs ≠ cancelRequestCode → bigEndian bs ≠ negotiateSslCode →
          3 ≤ bigEndian bs / 2 ^ 16 % 2 ^ 32 → OptionsFit p1) := by
      constructor
      · rintro ⟨bs', p1', hf', hs⟩
        obtain ⟨rfl, rfl⟩ := hunique bs' p1' hf'
        exact hs
      · exact fun hs => ⟨bs, p1, hf, hs⟩
    rw [readStartupOf, safe_bind, safe_cancelTarget hf, hfits]
    refine and_congr (forall_congr' fun hcode => ?_) (forall_congr' fun hcode => ?_)
    · refine exists_congr fun pid => exists_congr fun p2 => and_congr_right fun hpid => and_congr_right fun hauth => ?_
      dsimp only
      split
      · next hle => exact iff_of_false (fun hs => safe_undefined.mp hs) (by omega)
      · next hle =>
        have hread := (safe_readStartup hf).mpr ⟨fun _ => ⟨pid, p2, hpid, hauth⟩, fun hn => absurd hcode hn⟩
        exact iff_of_true hread (by omega)
    · exact (safe_readStartup hf).trans ⟨fun hs => hs.2 hcode, fun hs => ⟨fun hc => absurd hc hcode, fun _ => hs⟩⟩
  · refine iff_of_false (fun hs => ?_) ?_
    · rw [readStartupOf, safe_bind, cancelTarget, safe_bind, PgDataReader.getNextInt, safe_bind, safe_take h] at hs
      obtain ⟨bs, p1, hf, -⟩ := hs
      rw [hf.2, List.length_append, hf.1] at hlen
      omega
    · rintro ⟨bs, p1, hf, -⟩
      rw [hf.2, List.length_append, hf.1] at hlen
      omega

end Readable

section Frame

/-- What a read that does not go behind the block does is the same when the block goes on; `e` is what
becomes of its result. -/
def Framed (e : α → α) (x y : Fallible α) : Prop := x = .error .undefined ∨ y = x.map e

theorem Framed.bind {e : α → α} {e' : β → β} {x y : Fallible α} {f g : α → Fallible β} (h : Framed e x y)
    (hf : ∀ a, Framed e' (f a) (g (e a))) : Framed e' (x >>= f) (y >>= g) := by
  obtain rfl | rfl := h
  · exact .inl rfl
  · cases x with
    | ok a => exact hf a
    | error f => exact .inr rfl

theorem Framed.same {e : α → α} {x : Fallible α} (h : x.map e = x) : Framed e x x := .inr h.symm

theorem Framed.eq {x y : Fallible α} (h : Framed id x y) (hx : x ≠ .error .undefined) : y = x := by
  obtain h | h := h
  · exact absurd h hx
  · rw [h]
    cases x <;> rfl

variable (tail : Bytes)

def extend (r : PgDataReader) : PgDataReader := { r with block := r.block ++ tail }

def extendSnd (p : α × PgDataReader) : α × PgDataReader := (p.1, extend tail p.2)

theorem framed_take (r : PgDataReader) (n : Nat) : Framed id (r.take n) ((extend tail r).take n) := by
  by_cases h : r.block.length < r.current + n
  · exact .inl (by rw [PgDataReader.take, if_pos h])
  · refine .inr ?_
    have htake : ((r.block ++ tail).drop r.current).take n = (r.block.drop r.current).take n := by
      rw [List.drop_append_of_le_length (by omega), List.take_append_of_le_length (by rw [List.length_drop]; omega)]
    have h' : ¬ (r.block ++ tail).length < r.current + n := by
      rw [List.length_append]
      omega
    rw [PgDataReader.take, PgDataReader.take, if_neg h, extend, if_neg h', htake]
    rfl

theorem framed_getNextString (r : PgDataReader) : Framed (extendSnd tail) r.getNextString (extend tail r).getNextString := by
  by_cases h : 0 ∈ r.block.drop r.current
  · obtain ⟨s, rest, he, hs⟩ := List.eq_append_cons_of_mem h
    have hle : r.current ≤ r.block.length := by
      by_contra hlt
      rw [List.drop_eq_nil_of_le (by omega)] at h
      exact List.not_mem_nil h
    refine .inr ?_
    rw [PgDataReader.getNextString, PgDataReader.getNextString, extend]
    dsimp only
    rw [List.drop_append_of_le_length hle, he, List.append_assoc, List.cons_append, takeWhile_terminated hs,
      takeWhile_terminated hs, if_neg (by simp), if_neg (by simp)]
    rfl
  · refine .inl ?_
    have hall : (r.block.drop r.current).takeWhile (fun b => b != 0) = r.block.drop r.current :=
      List.takeWhile_eq_self_iff.mpr fun b hb => bne_iff_ne.mpr (by rintro rfl; exact h hb)
    rw [PgDataReader.getNextString, hall, if_pos rfl]

theorem framed_getNextShort (r : PgDataReader) : Framed (extendSnd tail) r.getNextShort (extend tail r).getNextShort :=
  (framed_take tail r 2).bind fun _ => .inr rfl

theorem framed_getNextInt (r : PgDataReader) : Framed (extendSnd tail) r.getNextInt (extend tail r).getNextInt :=
  (framed_take tail r 4).bind fun _ => .inr rfl

theorem framed_getNextStringWithLen (r : PgDataReader) :
    Framed (extendSnd tail) r.getNextStringWithLen (extend tail r).getNextStringWithLen := by
  refine (framed_getNextInt tail r).bind fun x => ?_
  dsimp only [extendSnd]
  split
  · exact .same rfl
  · exact (framed_take tail x.2 _).bind fun _ => .inr rfl

theorem framed_readParamModes (n : Nat) (r : PgDataReader) :
    Framed (extendSnd tail) (readParamModes n r) (readParamModes n (extend tail r)) := by
  induction n generalizing r with
  | zero => exact .inr rfl
  | succ n ih =>
    refine (framed_getNextShort tail r).bind fun x => ?_
    dsimp only [extendSnd]
    split
    · exact (ih x.2).bind fun _ => .inr rfl
    · exact .same rfl

theorem framed_readParamValues (n : Nat) (r : PgDataReader) :
    Framed (extendSnd tail) (readParamValues n r) (readParamValues n (extend tail r)) := by
  induction n generalizing r with
  | zero => exact .inr rfl
  | succ n ih => exact (framed_getNextStringWithLen tail r).bind fun x => (ih x.2).bind fun _ => .inr rfl

theorem framed_readOptions (fuel : Nat) (r : PgDataReader) : Framed id (readOptions fuel r) (readOptions fuel (extend tail r)) := by
  induction fuel generalizing r with
  | zero => exact .inr rfl
  | succ fuel ih =>
    rw [readOptions, readOptions, show (extend tail r).hasData = r.hasData from rfl]
    split
    · refine (framed_getNextString tail r).bind fun x => ?_
      dsimp only [extendSnd]
      split
      · exact .inr rfl
      · exact (framed_getNextString tail x.2).bind fun y => ih y.2
    · exact .inr rfl

variable (payload : Bytes) (len : Nat)

theorem framed_readQueryInfo : Framed id (readQueryInfo payload len) (readQueryInfo (payload ++ tail) len) :=
  (framed_getNextString tail _).bind fun _ => .inr rfl

theorem framed_readParseInfo : Framed id (readParseInfo payload len) (readParseInfo (payload ++ tail) len) :=
  (framed_getNextString tail _).bind fun x => (framed_getNextString tail x.2).bind fun y =>
    (framed_getNextShort tail y.2).bind fun _ => .inr rfl

theorem framed_self (x : Fallible α) : Framed id x x := .same (by cases x <;> rfl)

theorem framed_readBindParam (n : Nat) : Framed id (readBindParam payload len n) (readBindParam (payload ++ tail) len n) :=
  (framed_getNextString tail _).bind fun x => (framed_getNextString tail x.2).bind fun y =>
    (framed_getNextShort tail y.2).bind fun z => (framed_self (checkParamNumber _ z.1 n)).bind fun _ =>
      (framed_readParamModes tail n z.2).bind fun m => (framed_getNextShort tail m.2).bind fun k =>
        (framed_self (checkParamNumber _ k.1 n)).bind fun _ => (framed_readParamValues tail n k.2).bind fun _ => .inr rfl

theorem framed_readStartup : Framed id (readStartup payload len) (readStartup (payload ++ tail) len) := by
  refine (framed_getNextInt tail _).bind fun x => ?_
  dsimp only [extendSnd]
  split
  · exact (framed_getNextInt tail x.2).bind fun y => (framed_getNextInt tail y.2).bind fun _ => .same rfl
  · split
    · exact .inr rfl
    · split
      · exact .same rfl
      · exact (framed_readOptions tail _ x.2).bind fun _ => .inr rfl

theorem framed_cancelTarget : Framed id (cancelTarget payload len) (cancelTarget (payload ++ tail) len) := by
  refine (framed_getNextInt tail _).bind fun x => ?_
  dsimp only [extendSnd]
  split
  · exact (framed_getNextInt tail x.2).bind fun y => (framed_getNextInt tail y.2).bind fun _ => .inr rfl
  · exact .inr rfl

theorem framed_readStartupOf (sessions : Nat) :
    Framed id (readStartupOf sessions payload len) (readStartupOf sessions (payload ++ tail) len) := by
  refine (framed_cancelTarget tail payload len).bind fun target => ?_
  cases target with
  | none => exact framed_readStartup tail payload len
  | some i =>
    dsimp only [id]
    split
    · exact .inl rfl
    · exact framed_readStartup tail payload len

end Frame

section Views

theorem infix_of_take {r : PgDataReader} {n : Nat} {bs : Bytes} (h : r.take n = .ok bs) : bs <:+: r.block := by
  rw [PgDataReader.take] at h
  split at h
  · cases h
  · cases h
    exact (List.take_prefix n _).isInfix.trans (List.drop_suffix _ _).isInfix

theorem view_of_getNextString {r r' : PgDataReader} {s : Bytes} (h : r.getNextString = .ok (s, r')) :
    s <:+: r.block ∧ r'.block = r.block := by
  rw [PgDataReader.getNextString] at h
  split at h
  · cases h
  · cases h
    exact ⟨(List.takeWhile_prefix _).isInfix.trans (List.drop_suffix _ _).isInfix, rfl⟩

theorem block_of_getNextShort {r r' : PgDataReader} {v : Int} (h : r.getNextShort = .ok (v, r')) : r'.block = r.block := by
  obtain ⟨bs, -, h⟩ := bind_eq_ok.mp h
  cases h
  rfl

theorem view_of_getNextStringWithLen {r r' : PgDataReader} {s : Bytes} (h : r.getNextStringWithLen = .ok (s, r')) :
    s <:+: r.block ∧ r'.block = r.block := by
  obtain ⟨⟨v, r1⟩, hv, h⟩ := bind_eq_ok.mp h
  obtain ⟨bs, -, hv⟩ := bind_eq_ok.mp hv
  cases hv
  dsimp only at h
  split at h
  · cases h
  · obtain ⟨s', hs, h⟩ := bind_eq_ok.mp h
    cases h
    exact ⟨infix_of_take (r := r.advance 4) hs, rfl⟩

theorem block_of_readParamModes {n : Nat} {r r' : PgDataReader} {modes : List Bool}
    (h : readParamModes n r = .ok (modes, r')) : r'.block = r.block := by
  induction n generalizing r modes with
  | zero =>
    cases h
    rfl
  | succ n ih =>
    obtain ⟨⟨v, r1⟩, hv, h⟩ := bind_eq_ok.mp h
    dsimp only at h
    split at h
    · obtain ⟨⟨modes', r2⟩, hm, h⟩ := bind_eq_ok.mp h
      cases h
      rw [ih hm, block_of_getNextShort hv]
    · cases h

theorem views_of_readParamValues {n : Nat} {r r' : PgDataReader} {values : List Bytes}
    (h : readParamValues n r = .ok (values, r')) : ∀ v ∈ values, v <:+: r.block := by
  induction n generalizing r values with
  | zero =>
    cases h
    simp
  | succ n ih =>
    obtain ⟨⟨v, r1⟩, hv, h⟩ := bind_eq_ok.mp h
    obtain ⟨⟨values', r2⟩, hm, h⟩ := bind_eq_ok.mp h
    cases h
    obtain ⟨hview, hblock⟩ := view_of_getNextStringWithLen hv
    intro w hw
    obtain rfl | hw := List.mem_cons.mp hw
    · exact hview
    · exact hblock ▸ ih hm w hw

theorem view_of_readQueryInfo {payload sql : Bytes} {len : Nat} (h : readQueryInfo payload len = .ok sql) : sql <:+: payload := by
  obtain ⟨⟨s, r⟩, hs, h⟩ := bind_eq_ok.mp h
  cases h
  exact (view_of_getNextString hs).1

theorem view_of_readParseInfo {payload sql : Bytes} {len n : Nat} (h : readParseInfo payload len = .ok (sql, n)) :
    sql <:+: payload := by
  obtain ⟨⟨s, r⟩, hs, h⟩ := bind_eq_ok.mp h
  obtain ⟨⟨sql', r1⟩, hsql, h⟩ := bind_eq_ok.mp h
  obtain ⟨⟨v, r2⟩, -, h⟩ := bind_eq_ok.mp h
  cases h
  have hblock := (view_of_getNextString hs).2
  exact (view_of_getNextString hsql).1.trans (by rw [hblock])

theorem views_of_readBindParam {payload : Bytes} {len n : Nat} {params : List (Bool × Bytes)}
    (h : readBindParam payload len n = .ok params) : ∀ v ∈ params.map Prod.snd, v <:+: payload := by
  obtain ⟨⟨s, r⟩, hs, h⟩ := bind_eq_ok.mp h
  obtain ⟨⟨t, r1⟩, ht, h⟩ := bind_eq_ok.mp h
  obtain ⟨⟨i, r2⟩, hi, h⟩ := bind_eq_ok.mp h
  obtain ⟨u, -, h⟩ := bind_eq_ok.mp h
  obtain ⟨⟨modes, r3⟩, hm, h⟩ := bind_eq_ok.mp h
  obtain ⟨⟨j, r4⟩, hj, h⟩ := bind_eq_ok.mp h
  obtain ⟨u', -, h⟩ := bind_eq_ok.mp h
  obtain ⟨⟨values, r5⟩, hv, h⟩ := bind_eq_ok.mp h
  cases h
  have hblock : r4.block = payload := by
    rw [block_of_getNextShort hj, block_of_readParamModes hm, block_of_getNextShort hi, (view_of_getNextString ht).2,
      (view_of_getNextString hs).2]
  intro v hmem
  obtain ⟨⟨mode, w⟩, hw, rfl⟩ := List.mem_map.mp hmem
  exact hblock ▸ views_of_readParamValues hv w (List.of_mem_zip hw).2

end Views

theorem staysInside_iff {views : α → List Bytes} {read : Bytes → Fallible α} {payload : Bytes} {Fits : Prop}
    (hframe : ∀ tail, Framed id (read payload) (read (payload ++ tail)))
    (hviews : ∀ a, read payload = .ok a → ∀ v ∈ views a, v <:+: payload)
    (hsafe : Safe (fun _ => True) (read payload) ↔ Fits) : StaysInside views read payload ↔ Fits := by
  rw [← hsafe]
  constructor
  · rintro ⟨x, hx, hresult⟩
    rw [← hx [], List.append_nil] at hresult
    cases h : read payload with
    | ok a => trivial
    | error f =>
      rw [h] at hresult
      exact hresult
  · intro hs
    have hdef : read payload ≠ .error .undefined := fun h => safe_undefined.mp (h ▸ hs)
    refine ⟨read payload, fun tail => (hframe tail).eq hdef, ?_⟩
    cases h : read payload with
    | ok a => exact hviews a h
    | error f =>
      rw [h] at hs
      exact hs

/-- When the readers of the four messages stay inside the payload and inside the table of the sessions. -/
theorem readers_stay_inside_iff (payload : Bytes) (sessions n : Nat) :
    (StaysInside (fun _ => []) (fun block => readStartupOf sessions block payload.length) payload ↔ StartupFits sessions payload) ∧
      (StaysInside (fun sql => [sql]) (fun block => readQueryInfo block payload.length) payload ↔ QueryFits payload) ∧
      (StaysInside (fun r => [r.1]) (fun block => readParseInfo block payload.length) payload ↔ ParseFits payload) ∧
      (StaysInside (fun params => params.map Prod.snd) (fun block => readBindParam block payload.length n) payload ↔
        BindFits n payload) := by
  refine ⟨staysInside_iff (fun tail => framed_readStartupOf tail payload _ sessions) (by simp) (safe_readStartupOf payload sessions),
    staysInside_iff (fun tail => framed_readQueryInfo tail payload _) (fun a h v hv => ?_) (safe_readQueryInfo payload),
    staysInside_iff (fun tail => framed_readParseInfo tail payload _) (fun a h v hv => ?_) (safe_readParseInfo payload),
    staysInside_iff (fun tail => framed_readBindParam tail payload _ n) (fun a h => views_of_readBindParam h)
      (safe_readBindParam payload n)⟩
  · rw [List.mem_singleton.mp hv]
    exact view_of_readQueryInfo h
  · rw [List.mem_singleton.mp hv]
    exact view_of_readParseInfo h

/-- A query text without its terminator is read on behind the payload, and a cancel request with an
unknown session id behind the table of the sessions. -/
theorem readers_leave_payload :
    ¬ StaysInside (fun sql => [sql]) (fun block => readQueryInfo block 2) (bytes "ab") ∧
      readQueryInfo (bytes "ab" ++ bytes "c" ++ [0]) 2 = .ok (bytes "abc") ∧
      ¬ StaysInside (fun _ => []) (fun block => readStartupOf 1 block 12) [4, 210, 22, 46, 0, 0, 0, 1, 0, 0, 0, 0] := by
  refine ⟨?_, by decide, ?_⟩
  · rintro ⟨x, hx, hresult⟩
    obtain rfl : .error .undefined = x := hx []
    obtain ⟨what, h⟩ := hresult
    cases h
  · rintro ⟨x, hx, hresult⟩
    obtain rfl : .error .undefined = x := hx []
    obtain ⟨what, h⟩ := hresult
    cases h


end LevelPgServer.PayloadReads
