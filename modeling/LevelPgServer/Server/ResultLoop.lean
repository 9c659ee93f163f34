import LevelPgServer.Server.DataRowMessage
import LevelPgServer.Server.ParseBuffer

namespace LevelPgServer

open PostgresProtocol PgDataWriter

variable {π δ τ : Type}

/-- `handleExecutionResult` is running, or writes what it has. -/
def Control.InLoop : Control → Prop
  | .building _ _ | .looping _ _ | .writing _ .handleExecutionResult | .writing _ .handleExecutionDone => True
  | _ => False

namespace Server

variable (engine : Engine π δ τ)

/-- The next thing a session does by itself: a write ends, or a plan is called. -/
def advance (s : Server π δ τ) : Server π δ τ :=
  match s.session.control with
  | .writing _ _ => s.step engine .written
  | _ => s.step engine (.tick none)

def sent (s : Server π δ τ) : Bytes :=
  match s.session.control with
  | .writing out _ => out
  | _ => []

/-- What is sent from `s` on until the loop is left at `t`. -/
inductive Sends : Server π δ τ → Bytes → Server π δ τ → Prop
  | leave {s : Server π δ τ} (h : ¬ s.session.control.InLoop) : Sends s [] s
  | step {s t : Server π δ τ} {out : Bytes} (h : s.session.control.InLoop) (hrest : Sends (s.advance engine) out t) :
      Sends s (s.sent ++ out) t

/-- The states within the loop. -/
inductive Within (s : Server π δ τ) : Server π δ τ → Prop
  | start : Within s s
  | step {t : Server π δ τ} (hrest : Within s t) (h : t.session.control.InLoop) : Within s (t.advance engine)

/-- The rows of a plan from the current one on, and the exception `next` ends with, if it
does not return false. -/
inductive Rows (raised : Option Nat) (columnNum : Nat) : π → List (List (Fallible (DBDataType × ExecutionResult))) →
    Option Fault → π → Prop
  | last {p q : π} (hn : engine.getResultColumns p = columnNum) (h : engine.next raised p = .ok false q) :
      Rows raised columnNum p [SessionInfo.currentRow engine p columnNum] none q
  | throws {p q : π} {f : Fault} (hn : engine.getResultColumns p = columnNum) (h : engine.next raised p = .error f q) :
      Rows raised columnNum p [SessionInfo.currentRow engine p columnNum] (some f) q
  | more {p p' q : π} {rows : List (List (Fallible (DBDataType × ExecutionResult)))} {f : Option Fault}
      (hn : engine.getResultColumns p = columnNum) (h : engine.next raised p = .ok true p')
      (hrest : Rows raised columnNum p' rows f q) :
      Rows raised columnNum p (SessionInfo.currentRow engine p columnNum :: rows) f q

/-- A session that executes `p` and stands at `c`. -/
def place (s : Server π δ τ) (p : π) (c : Control) : Server π δ τ :=
  { s with session := { s.session with plan := some p, control := c } }

@[simp] theorem place_control (s : Server π δ τ) (p : π) (c : Control) : (s.place p c).session.control = c := rfl
@[simp] theorem place_terminate (s : Server π δ τ) (p : π) (c : Control) :
    (s.place p c).session.terminate = s.session.terminate := rfl
@[simp] theorem place_place (s : Server π δ τ) (p q : π) (c d : Control) : (s.place p c).place q d = s.place q d := rfl

theorem inLoop_building (s : Server π δ τ) (p : π) (n : Nat) (w : PgDataWriter) :
    (s.place p (.building n w)).session.control.InLoop := trivial

theorem inLoop_looping (s : Server π δ τ) (p : π) (n : Nat) (w : PgDataWriter) :
    (s.place p (.looping n w)).session.control.InLoop := trivial

theorem inLoop_result (s : Server π δ τ) (p : π) (out : Bytes) :
    (s.place p (.writing out .handleExecutionResult)).session.control.InLoop := trivial

theorem inLoop_done (s : Server π δ τ) (p : π) (out : Bytes) :
    (s.place p (.writing out .handleExecutionDone)).session.control.InLoop := trivial

variable {engine}

theorem advance_building_zero (s : Server π δ τ) (p : π) (w : PgDataWriter) :
    (s.place p (.building 0 w)).advance engine = s.place p (.looping 0 w) := by
  simp [advance, step, tick, place]

theorem advance_building_ok {n : Nat} (hn : n ≠ 0) (s : Server π δ τ) {p : π} {w w' : PgDataWriter}
    (h : buildData engine.conv engine.fmt (SessionInfo.currentRow engine p n) w = .ok w')
    (hfull : w'.full = false) :
    (s.place p (.building n w)).advance engine = s.place p (.looping n w') := by
  simp [advance, step, tick, place, hn, h, hfull]

theorem advance_building_full {n : Nat} (hn : n ≠ 0) (s : Server π δ τ) {p : π} {w w' : PgDataWriter}
    (h : buildData engine.conv engine.fmt (SessionInfo.currentRow engine p n) w = .ok w')
    (hfull : w'.full = true) :
    (s.place p (.building n w)).advance engine =
      if w'.prepared = [] then s.place p (.building (engine.getResultColumns p) { size := blockSize })
      else s.place p (.writing w'.prepared .handleExecutionResult) := by
  by_cases hout : w'.prepared = [] <;>
    simp [advance, step, tick, place, hn, h, hfull, hout, SessionInfo.doWrite, SessionInfo.enter]

theorem advance_building_error {n : Nat} (hn : n ≠ 0) (s : Server π δ τ) {p : π} {w : PgDataWriter} {f : Fault}
    (h : buildData engine.conv engine.fmt (SessionInfo.currentRow engine p n) w = .error f) :
    (s.place p (.building n w)).advance engine =
      { s with session := (s.place p (.building n w)).session.caught engine f } := by
  simp [advance, step, tick, place, hn, h]

theorem advance_looping_true {n : Nat} (s : Server π δ τ) {p p' : π} (w : PgDataWriter)
    (h : engine.next (seen s.session none) p = .ok true p') :
    (s.place p (.looping n w)).advance engine = s.place p' (.building n w) := by
  have h : engine.next (seen (s.place p (.looping n w)).session none) p = _ := h
  simp only [place] at h
  simp [advance, step, tick, place, h]

theorem advance_looping_false {n : Nat} (s : Server π δ τ) {p p' : π} (w : PgDataWriter)
    (h : engine.next (seen s.session none) p = .ok false p') :
    (s.place p (.looping n w)).advance engine =
      if w.prepared = [] then s.place p' .finishing else s.place p' (.writing w.prepared .handleExecutionDone) := by
  have h : engine.next (seen (s.place p (.looping n w)).session none) p = _ := h
  simp only [place] at h
  by_cases hout : w.prepared = [] <;>
    simp [advance, step, tick, place, h, hout, SessionInfo.doWrite, SessionInfo.enter]

theorem advance_looping_error {n : Nat} (s : Server π δ τ) {p p' : π} {f : Fault} (w : PgDataWriter)
    (h : engine.next (seen s.session none) p = .error f p') :
    (s.place p (.looping n w)).advance engine =
      { s with session := (s.place p' (.looping n w)).session.caught engine f } := by
  have h : engine.next (seen (s.place p (.looping n w)).session none) p = _ := h
  simp only [place] at h
  simp [advance, step, tick, place, h]

theorem advance_writing_result (s : Server π δ τ) (p : π) (out : Bytes) :
    (s.place p (.writing out .handleExecutionResult)).advance engine =
      s.place p (.building (engine.getResultColumns p) { size := blockSize }) := by
  simp [advance, step, place, SessionInfo.enter]

theorem advance_writing_done (s : Server π δ τ) (p : π) (out : Bytes) :
    (s.place p (.writing out .handleExecutionDone)).advance engine = s.place p .finishing := by
  simp [advance, step, place, SessionInfo.enter]

theorem not_inLoop_caught (f : Fault) (s : SessionInfo π τ) : ¬ (s.caught engine f).control.InLoop := by
  cases f with
  | undefined => exact id
  | thrown e =>
    rw [SessionInfo.caught]
    split
    · exact id
    · rw [SessionInfo.doWrite]
      split
      · exact id
      · exact id

theorem sends_iff_advance {s t : Server π δ τ} {out : Bytes} (h : s.session.control.InLoop) :
    Sends engine s out t ↔ ∃ out', out = s.sent ++ out' ∧ Sends engine (s.advance engine) out' t := by
  constructor
  · intro hs
    cases hs with
    | leave hn => exact absurd h hn
    | step _ hrest => exact ⟨_, rfl, hrest⟩
  · rintro ⟨out', rfl, hrest⟩
    exact .step h hrest

theorem sends_iff_left {s t : Server π δ τ} {out : Bytes} (h : ¬ s.session.control.InLoop) :
    Sends engine s out t ↔ out = [] ∧ t = s := by
  constructor
  · intro hs
    cases hs with
    | leave _ => exact ⟨rfl, rfl⟩
    | step hl _ => exact absurd hl h
  · rintro ⟨rfl, rfl⟩
    exact .leave h

/-- A session that does not get on never leaves the loop. -/
theorem not_sends_of_stuck {s t : Server π δ τ} {out : Bytes} (h : s.session.control.InLoop) (hstuck : s.advance engine = s) :
    ¬ Sends engine s out t := by
  intro hs
  induction hs with
  | leave hn => exact hn h
  | step _ _ ih =>
    rw [hstuck] at ih
    exact ih h hstuck

theorem Within.sends {s t u : Server π δ τ} {out : Bytes} (h : Within engine s u) (hs : Sends engine s out t) :
    ∃ out', Sends engine u out' t := by
  induction h with
  | start => exact ⟨out, hs⟩
  | step _ hl ih =>
    obtain ⟨out', hs'⟩ := ih
    obtain ⟨out'', -, hrest⟩ := (sends_iff_advance hl).mp hs'
    exact ⟨out'', hrest⟩

/-- There is room for the row behind `pos` bytes; a row without columns needs none. -/
def Room (size pos : Nat) (fs : List Field) : Prop := fs = [] ∨ RowFits size pos fs

instance (size pos : Nat) (fs : List Field) : Decidable (Room size pos fs) := inferInstanceAs (Decidable (_ ∨ _))

/-- The bytes of a row written behind `pos` others. -/
def rowAt (size pos : Nat) (fs : List Field) : Bytes := if fs = [] then [] else rowBytes size pos fs

def withRow (fs : List Field) (w : PgDataWriter) : PgDataWriter := if fs = [] then w else writeRow fs w

section Row

variable {w : PgDataWriter} {fs : List Field}

theorem withRow_spec (hfs : ∀ f ∈ fs, f.Printed) (hw : w.Framed) (hsize : w.size = blockSize)
    (hroom : Room blockSize w.data.length fs) :
    (withRow fs w).Framed ∧ (withRow fs w).size = blockSize ∧
      (withRow fs w).data = w.data ++ rowAt blockSize w.data.length fs := by
  rw [withRow, rowAt]
  split
  · exact ⟨hw, hsize, by simp⟩
  · next hne =>
    have hfit := hroom.resolve_left hne
    rw [← hsize] at hfit ⊢
    exact writeRow_of_fits hfs hw hfit

variable {n : Nat} {p : π} (s : Server π δ τ)

theorem length_currentRow (p : π) (n : Nat) : (SessionInfo.currentRow engine p n).length = n := by
  simp [SessionInfo.currentRow]

theorem fields_eq_nil_iff (hrow : rowFields engine.conv engine.fmt (SessionInfo.currentRow engine p n) = .ok fs) :
    fs = [] ↔ n = 0 := by
  rw [← List.length_eq_zero_iff, length_rowFields _ _ hrow, length_currentRow]

theorem buildData_row (hrow : rowFields engine.conv engine.fmt (SessionInfo.currentRow engine p n) = .ok fs)
    (w : PgDataWriter) :
    buildData engine.conv engine.fmt (SessionInfo.currentRow engine p n) w = .ok (writeRow fs w) := by
  rw [buildData_eq, hrow]
  rfl

theorem sends_building_room (hrow : rowFields engine.conv engine.fmt (SessionInfo.currentRow engine p n) = .ok fs)
    (hw : w.Framed) (hsize : w.size = blockSize) (hroom : Room blockSize w.data.length fs) {out : Bytes} {t : Server π δ τ} :
    Sends engine (s.place p (.building n w)) out t ↔ Sends engine (s.place p (.looping n (withRow fs w))) out t := by
  rw [sends_iff_advance (inLoop_building s p n w)]
  have hadv : (s.place p (.building n w)).advance engine = s.place p (.looping n (withRow fs w)) := by
    by_cases hn : n = 0
    · subst hn
      rw [advance_building_zero, withRow, if_pos ((fields_eq_nil_iff hrow).mpr rfl)]
    · have hne : fs ≠ [] := fun h => hn ((fields_eq_nil_iff hrow).mp h)
      have hfit := hroom.resolve_left hne
      rw [← hsize] at hfit
      rw [withRow, if_neg hne]
      exact advance_building_ok hn s (buildData_row hrow w) (writeRow_of_fits (printed_of_rowFields engine.conv engine.fmt hrow) hw hfit).1.full
  rw [hadv]
  constructor
  · rintro ⟨out', rfl, hrest⟩
    exact hrest
  · exact fun h => ⟨out, rfl, h⟩

/-- A row that does not fit an empty buffer is tried again forever. -/
theorem not_sends_fresh (hrow : rowFields engine.conv engine.fmt (SessionInfo.currentRow engine p n) = .ok fs)
    (hn : engine.getResultColumns p = n) (hroom : ¬ Room blockSize 0 fs) {out : Bytes} {t : Server π δ τ} :
    ¬ Sends engine (s.place p (.building n { size := blockSize })) out t := by
  have hn0 : n ≠ 0 := fun h => hroom (.inl ((fields_eq_nil_iff hrow).mpr h))
  have hfit : ¬ RowFits blockSize 0 fs := fun h => hroom (.inr h)
  obtain ⟨hfull, hprepared⟩ := writeRow_of_not_fits (printed_of_rowFields engine.conv engine.fmt hrow) (framed_new blockSize) hfit
  have hstuck := advance_building_full hn0 s (buildData_row hrow { size := blockSize }) hfull
  rw [hprepared, hn, if_pos rfl] at hstuck
  exact not_sends_of_stuck (inLoop_building s p n _) hstuck

theorem eq_new_of_framed (hw : w.Framed) (hsize : w.size = blockSize) (hdata : w.data = []) : w = { size := blockSize } := by
  obtain ⟨size, data, lastPrepare, full⟩ := w
  obtain ⟨hf, hl⟩ := hw
  simp only at hdata hsize hf hl
  subst hdata hsize hf hl
  rfl

theorem sends_building_flush (hrow : rowFields engine.conv engine.fmt (SessionInfo.currentRow engine p n) = .ok fs)
    (hn : engine.getResultColumns p = n) (hw : w.Framed) (hsize : w.size = blockSize)
    (hroom : ¬ Room blockSize w.data.length fs) {out : Bytes} {t : Server π δ τ} :
    Sends engine (s.place p (.building n w)) out t ↔ Room blockSize 0 fs ∧ ∃ out', out = w.data ++ out' ∧
      Sends engine (s.place p (.looping n (withRow fs { size := blockSize }))) out' t := by
  by_cases hdata : w.data = []
  · obtain rfl := eq_new_of_framed hw hsize hdata
    exact ⟨fun h => absurd h (not_sends_fresh s hrow hn hroom), fun h => absurd h.1 hroom⟩
  · have hn0 : n ≠ 0 := fun h => hroom (.inl ((fields_eq_nil_iff hrow).mpr h))
    have hfit : ¬ RowFits w.size w.data.length fs := fun h => hroom (.inr (hsize ▸ h))
    obtain ⟨hfull, hprepared⟩ := writeRow_of_not_fits (printed_of_rowFields engine.conv engine.fmt hrow) hw hfit
    have hadv := advance_building_full hn0 s (buildData_row hrow w) hfull
    rw [hprepared, if_neg hdata] at hadv
    have hflush : Sends engine (s.place p (.building n w)) out t ↔ ∃ out', out = w.data ++ out' ∧
        Sends engine (s.place p (.building n { size := blockSize })) out' t := by
      rw [sends_iff_advance (inLoop_building s p n w), hadv]
      simp only [sends_iff_advance (inLoop_result s p w.data), advance_writing_result, hn]
      exact ⟨fun ⟨_, h, out', h', hrest⟩ => ⟨out', h.trans h', hrest⟩, fun ⟨out', h, hrest⟩ => ⟨out, rfl, out', h, hrest⟩⟩
    rw [hflush]
    by_cases hfresh : Room blockSize 0 fs
    · simp only [sends_building_room s hrow (framed_new blockSize) rfl hfresh, hfresh, true_and]
    · simp only [not_sends_fresh s hrow hn hfresh, hfresh, and_false, exists_false, false_and]

theorem sends_building_error (hn : n ≠ 0) {f : Fault}
    (hrow : rowFields engine.conv engine.fmt (SessionInfo.currentRow engine p n) = .error f) (w : PgDataWriter) :
    ∃ out t, Sends engine (s.place p (.building n w)) out t := by
  have hbuild : buildData engine.conv engine.fmt (SessionInfo.currentRow engine p n) w = .error f := by
    rw [buildData_eq, hrow]
    rfl
  refine ⟨_, _, .step (inLoop_building s p n w) (.leave ?_)⟩
  rw [advance_building_error hn s hbuild]
  exact not_inLoop_caught f _

theorem sends_looping_true {p' : π} (h : engine.next (seen s.session none) p = .ok true p') (w : PgDataWriter) {out : Bytes}
    {t : Server π δ τ} :
    Sends engine (s.place p (.looping n w)) out t ↔ Sends engine (s.place p' (.building n w)) out t := by
  rw [sends_iff_advance (inLoop_looping s p n w), advance_looping_true s w h]
  exact ⟨fun ⟨_, h, hrest⟩ => h ▸ hrest, fun h => ⟨out, rfl, h⟩⟩

theorem prepared_of_framed (hw : w.Framed) : w.prepared = w.data := by rw [prepared, hw.lastPrepare, List.take_length]

theorem sends_looping_false {q : π} (h : engine.next (seen s.session none) p = .ok false q) (hw : w.Framed) {out : Bytes}
    {t : Server π δ τ} :
    Sends engine (s.place p (.looping n w)) out t ↔ out = w.data ∧ t = s.place q .finishing := by
  have hadv := advance_looping_false (n := n) s w h
  rw [prepared_of_framed hw] at hadv
  have hend : ∀ out', Sends engine (s.place q .finishing) out' t ↔ out' = [] ∧ t = s.place q .finishing :=
    fun out' => sends_iff_left id
  rw [sends_iff_advance (inLoop_looping s p n w), hadv]
  by_cases hdata : w.data = []
  · rw [if_pos hdata, hdata]
    simp only [hend]
    exact ⟨fun ⟨_, h, h', ht⟩ => ⟨by rw [h, h']; rfl, ht⟩, fun ⟨h, ht⟩ => ⟨[], by rw [h]; rfl, rfl, ht⟩⟩
  · rw [if_neg hdata]
    simp only [sends_iff_advance (inLoop_done s q w.data), advance_writing_done, hend]
    exact ⟨fun ⟨_, h, _, h', h'', ht⟩ => ⟨by rw [h, h', h'']; exact List.append_nil _, ht⟩,
      fun ⟨h, ht⟩ => ⟨w.data, h, [], (List.append_nil _).symm, rfl, ht⟩⟩

theorem sends_looping_error {q : π} {f : Fault} (h : engine.next (seen s.session none) p = .error f q) (w : PgDataWriter) :
    ∃ out t, Sends engine (s.place p (.looping n w)) out t := by
  refine ⟨_, _, .step (inLoop_looping s p n w) (.leave ?_)⟩
  rw [advance_looping_error s w h]
  exact not_inLoop_caught f _

end Row

/-- Every row that does not fit behind those in the buffer fits an empty one. -/
def Placed (size : Nat) : Nat → List (List Field) → Prop
  | _, [] => True
  | pos, fs :: rows =>
    if Room size pos fs then Placed size (pos + (rowAt size pos fs).length) rows
    else Room size 0 fs ∧ Placed size (rowAt size 0 fs).length rows

/-- The rows before the first one with a column that throws. -/
def readable (conv : Conversions) (fmt : Formats) : List (List (Fallible (DBDataType × ExecutionResult))) → List (List Field)
  | [] => []
  | row :: rows =>
    match rowFields conv fmt row with
    | .ok fs => fs :: readable conv fmt rows
    | .error _ => []

theorem sends_iff_placed_cons {n : Nat} {p : π} {rows : List (List (Fallible (DBDataType × ExecutionResult)))}
    (s : Server π δ τ) (hn : engine.getResultColumns p = n)
    (hloop : ∀ w : PgDataWriter, w.Framed → w.size = blockSize → ((∃ out t, Sends engine (s.place p (.looping n w)) out t) ↔
      Placed blockSize w.data.length (readable engine.conv engine.fmt rows)))
    {w : PgDataWriter} (hw : w.Framed) (hsize : w.size = blockSize) :
    (∃ out t, Sends engine (s.place p (.building n w)) out t) ↔
      Placed blockSize w.data.length (readable engine.conv engine.fmt (SessionInfo.currentRow engine p n :: rows)) := by
  rw [readable]
  cases hrow : rowFields engine.conv engine.fmt (SessionInfo.currentRow engine p n) with
  | error f =>
    have hn0 : n ≠ 0 := by
      rintro rfl
      cases hrow
    exact ⟨fun _ => trivial, fun _ => sends_building_error s hn0 hrow w⟩
  | ok fs =>
    rw [Placed]
    split
    · next hroom =>
      obtain ⟨hframed, hsize', hdata⟩ := withRow_spec (printed_of_rowFields engine.conv engine.fmt hrow) hw hsize hroom
      have := hloop _ hframed hsize'
      rw [hdata, List.length_append] at this
      simp only [sends_building_room s hrow hw hsize hroom]
      exact this
    · next hroom =>
      simp only [sends_building_flush s hrow hn hw hsize hroom]
      have hnew : Room blockSize 0 fs → ((∃ out t, Sends engine (s.place p (.looping n (withRow fs { size := blockSize }))) out t) ↔
          Placed blockSize (rowAt blockSize 0 fs).length (readable engine.conv engine.fmt rows)) := by
        intro hfresh
        obtain ⟨hframed, hsize', hdata⟩ :=
          withRow_spec (w := { size := blockSize }) (printed_of_rowFields engine.conv engine.fmt hrow) (framed_new blockSize) rfl hfresh
        have := hloop _ hframed hsize'
        rwa [hdata] at this
      constructor
      · rintro ⟨_, t, hfresh, out, -, hrest⟩
        exact ⟨hfresh, (hnew hfresh).mp ⟨out, t, hrest⟩⟩
      · rintro ⟨hfresh, hplaced⟩
        obtain ⟨out, t, hrest⟩ := (hnew hfresh).mpr hplaced
        exact ⟨_, t, hfresh, out, rfl, hrest⟩

theorem sends_iff_placed {n : Nat} {p q : π} {rows : List (List (Fallible (DBDataType × ExecutionResult)))} {e : Option Fault}
    (s : Server π δ τ) (hrows : Rows engine (seen s.session none) n p rows e q) {w : PgDataWriter} (hw : w.Framed)
    (hsize : w.size = blockSize) :
    (∃ out t, Sends engine (s.place p (.building n w)) out t) ↔
      Placed blockSize w.data.length (readable engine.conv engine.fmt rows) := by
  induction hrows generalizing w with
  | last hn h =>
    refine @sends_iff_placed_cons _ _ _ engine n _ [] s hn (fun w hw _ => ⟨fun _ => trivial, fun _ => ?_⟩) _ hw hsize
    exact ⟨_, _, (sends_looping_false s h hw).mpr ⟨rfl, rfl⟩⟩
  | throws hn h =>
    exact @sends_iff_placed_cons _ _ _ engine n _ [] s hn (fun w _ _ => ⟨fun _ => trivial, fun _ => sends_looping_error s h w⟩) _ hw hsize
  | more hn h hrest ih =>
    refine sends_iff_placed_cons s hn (fun w hw hsize => ?_) hw hsize
    simp only [sends_looping_true s h]
    exact ih hw hsize

/-- `handleExecutionResult` has just been called. -/
def Entered (engine : Engine π δ τ) (s : Server π δ τ) : Prop :=
  ∃ p, s.session.plan = some p ∧ s.session.control = .building (engine.getResultColumns p) { size := blockSize }

/-- A call of `handleExecutionResult` gets on: it has a whole row in its buffer, or ends with
the response to an exception. -/
def Progresses (engine : Engine π δ τ) (s : Server π δ τ) : Prop :=
  (∃ n w, (s.advance engine).session.control = .looping n w ∧ (n = 0 ∨ 0 < w.lastPrepare)) ∨
    ∃ f, (s.advance engine).session = s.session.caught engine f

theorem eq_place {s : Server π δ τ} {p : π} {c : Control} (hp : s.session.plan = some p) (hc : s.session.control = c) :
    s.place p c = s := by
  obtain ⟨session, db⟩ := s
  obtain ⟨index, plan, result, terminate, binded, parsed, qtype, control⟩ := session
  simp only at hp hc
  subst hp hc
  rfl

theorem progresses_of_sends {s t : Server π δ τ} {out : Bytes} (hs : Sends engine s out t) (hentered : Entered engine s) :
    Progresses engine s := by
  obtain ⟨p, hp, hc⟩ := hentered
  rw [← eq_place hp hc] at hs ⊢
  generalize hn : engine.getResultColumns p = n at hs ⊢
  by_cases hn0 : n = 0
  · subst hn0
    exact .inl ⟨0, _, by rw [advance_building_zero]; rfl, .inl rfl⟩
  · cases hrow : rowFields engine.conv engine.fmt (SessionInfo.currentRow engine p n) with
    | error f =>
      have hbuild : buildData engine.conv engine.fmt (SessionInfo.currentRow engine p n) { size := blockSize } = .error f := by
        rw [buildData_eq, hrow]
        rfl
      exact .inr ⟨f, by rw [advance_building_error hn0 s hbuild]⟩
    | ok fs =>
      have hne : fs ≠ [] := fun h => hn0 ((fields_eq_nil_iff hrow).mp h)
      by_cases hfit : RowFits blockSize 0 fs
      · obtain ⟨hframed, -, hdata⟩ :=
          writeRow_of_fits (w := { size := blockSize }) (printed_of_rowFields engine.conv engine.fmt hrow) (framed_new blockSize) hfit
        refine .inl ⟨n, _, by rw [advance_building_ok hn0 s (buildData_row hrow _) hframed.full]; rfl, .inr ?_⟩
        rw [hframed.lastPrepare, hdata, rowBytes]
        simp
      · exact absurd hs (not_sends_fresh s hrow hn fun h => h.elim hne hfit)

/-- `handleExecutionResult` and `doWrite` end, and every call of the first one gets on, exactly
when every row that does not fit behind those in the buffer fits an empty one. -/
theorem terminates_iff {p q : π} {rows : List (List (Fallible (DBDataType × ExecutionResult)))} {e : Option Fault}
    {s : Server π δ τ} (hplan : s.session.plan = some p)
    (hentered : s.session.control = .building (engine.getResultColumns p) { size := blockSize })
    (hrows : Rows engine (seen s.session none) (engine.getResultColumns p) p rows e q) :
    ((∃ out t, Sends engine s out t) ∧ ∀ u, Within engine s u → Entered engine u → Progresses engine u) ↔
      Placed blockSize 0 (readable engine.conv engine.fmt rows) := by
  have hsends := sends_iff_placed s hrows (framed_new blockSize) rfl
  rw [eq_place hplan hentered] at hsends
  rw [← show ([] : Bytes).length = 0 from rfl, ← hsends]
  refine ⟨fun h => h.1, fun h => ⟨h, fun u hu hu' => ?_⟩⟩
  obtain ⟨out, t, hs⟩ := h
  obtain ⟨out', hrest⟩ := hu.sends hs
  exact progresses_of_sends hrest hu'

theorem sends_prefix {n : Nat} {p q : π} {rows : List (List (Fallible (DBDataType × ExecutionResult)))} {e : Option Fault}
    (s : Server π δ τ) (hrows : Rows engine (seen s.session none) n p rows e q) (he : e = none) {rss : List (List Field)}
    (hread : rows.map (rowFields engine.conv engine.fmt) = rss.map .ok) {w : PgDataWriter} (hw : w.Framed)
    (hsize : w.size = blockSize) {out : Bytes} {t : Server π δ τ} (hs : Sends engine (s.place p (.building n w)) out t) :
    ∃ rest, out = w.data ++ rest := by
  induction hrows generalizing w rss out with
  | throws hn h => cases he
  | @last p q hn h =>
    obtain ⟨fs, rss, rfl⟩ : ∃ fs rss', rss = fs :: rss' := by cases rss <;> simp at hread ⊢
    have hrow := (List.cons.inj hread).1
    by_cases hroom : Room blockSize w.data.length fs
    · rw [sends_building_room s hrow hw hsize hroom] at hs
      obtain ⟨hframed, -, hdata⟩ := withRow_spec (printed_of_rowFields engine.conv engine.fmt hrow) hw hsize hroom
      obtain ⟨rfl, -⟩ := (sends_looping_false s h hframed).mp hs
      exact ⟨_, hdata⟩
    · obtain ⟨-, out', rfl, -⟩ := (sends_building_flush s hrow hn hw hsize hroom).mp hs
      exact ⟨out', rfl⟩
  | @more p p' q rows e hn h hrest ih =>
    obtain ⟨fs, rss, rfl⟩ : ∃ fs rss', rss = fs :: rss' := by cases rss <;> simp at hread ⊢
    obtain ⟨hrow, hread⟩ := List.cons.inj hread
    by_cases hroom : Room blockSize w.data.length fs
    · rw [sends_building_room s hrow hw hsize hroom, sends_looping_true s h] at hs
      obtain ⟨hframed, hsize', hdata⟩ := withRow_spec (printed_of_rowFields engine.conv engine.fmt hrow) hw hsize hroom
      obtain ⟨rest, rfl⟩ := ih he hread hframed hsize' hs
      exact ⟨_, by rw [hdata, List.append_assoc]⟩
    · obtain ⟨-, out', rfl, -⟩ := (sends_building_flush s hrow hn hw hsize hroom).mp hs
      exact ⟨out', rfl⟩

/-- The times of a row are well formed, and its message fits the buffer together with the byte
behind the last column. -/
def Sendable (fs : List Field) : Prop :=
  (∀ f ∈ fs, f.WellTimed) ∧ (dataRow fs).length + Field.slack fs ≤ blockSize

theorem room_of_sendable {fs : List Field} (h : Sendable fs) : Room blockSize 0 fs := by
  by_cases hne : fs = []
  · exact .inl hne
  · refine .inr ((rowFits_iff hne h.1).mpr ?_)
    have := h.2
    omega

theorem rowAt_of_sendable {fs : List Field} (h : Sendable fs) {pos : Nat} (hroom : Room blockSize pos fs) :
    rowAt blockSize pos fs = dataRow fs := by
  rw [rowAt]
  split
  · next hnil => rw [dataRow, if_pos hnil]
  · next hne => exact rowBytes_eq hne h.1 (hroom.resolve_left hne)

theorem sendable_of_prefix {fs : List Field} {pos : Nat} {x y : Bytes} (hlen : (dataRow fs).length ≤ blockSize)
    (hroom : Room blockSize pos fs) (h : rowAt blockSize pos fs ++ x = dataRow fs ++ y) : Sendable fs := by
  by_cases hne : fs = []
  · subst hne
    exact ⟨by simp, Nat.zero_le _⟩
  · have hfit := hroom.resolve_left hne
    rw [rowAt, if_neg hne] at h
    have ht := rowBytes_prefix hne (by decide) hlen hfit h
    have := (rowFits_iff hne ht).mp hfit
    exact ⟨ht, by omega⟩

/-- One row, when it is known how the loop goes on behind it. -/
theorem sends_messages_cons {n : Nat} {p q : π} {fs : List Field} {rss : List (List Field)} (s : Server π δ τ)
    (hn : engine.getResultColumns p = n)
    (hrow : rowFields engine.conv engine.fmt (SessionInfo.currentRow engine p n) = .ok fs)
    (hlen : (dataRow fs).length ≤ blockSize)
    (hmore : ∀ w : PgDataWriter, w.Framed → w.size = blockSize → ∀ out t, Sends engine (s.place p (.looping n w)) out t →
      ∃ rest, out = w.data ++ rest)
    (hloop : ∀ w : PgDataWriter, w.Framed → w.size = blockSize →
      (Sends engine (s.place p (.looping n w)) (w.data ++ rss.flatMap dataRow) (s.place q .finishing) ↔
        ∀ gs ∈ rss, Sendable gs))
    {w : PgDataWriter} (hw : w.Framed) (hsize : w.size = blockSize) :
    Sends engine (s.place p (.building n w)) (w.data ++ (fs :: rss).flatMap dataRow) (s.place q .finishing) ↔
      ∀ gs ∈ fs :: rss, Sendable gs := by
  have hput : ∀ w : PgDataWriter, w.Framed → w.size = blockSize → Room blockSize w.data.length fs →
      (Sends engine (s.place p (.looping n (withRow fs w))) (w.data ++ (fs :: rss).flatMap dataRow) (s.place q .finishing) ↔
        ∀ gs ∈ fs :: rss, Sendable gs) := by
    intro w hw hsize hroom
    obtain ⟨hframed, hsize', hdata⟩ := withRow_spec (printed_of_rowFields engine.conv engine.fmt hrow) hw hsize hroom
    have hiff := hloop _ hframed hsize'
    rw [List.forall_mem_cons, List.flatMap_cons]
    constructor
    · intro hs
      obtain ⟨rest, hout⟩ := hmore _ hframed hsize' _ _ hs
      rw [hdata, List.append_assoc] at hout
      have hsend : Sendable fs := sendable_of_prefix hlen hroom (List.append_cancel_left hout).symm
      rw [hdata, rowAt_of_sendable hsend hroom, List.append_assoc] at hiff
      exact ⟨hsend, hiff.mp hs⟩
    · rintro ⟨hsend, hrest⟩
      rw [hdata, rowAt_of_sendable hsend hroom, List.append_assoc] at hiff
      exact hiff.mpr hrest
  by_cases hroom : Room blockSize w.data.length fs
  · rw [sends_building_room s hrow hw hsize hroom]
    exact hput w hw hsize hroom
  · rw [sends_building_flush s hrow hn hw hsize hroom]
    constructor
    · rintro ⟨hfresh, out, hout, hs⟩
      rw [← List.append_cancel_left hout] at hs
      exact (hput { size := blockSize } (framed_new blockSize) rfl hfresh).mp hs
    · intro hsend
      have hfresh := room_of_sendable (hsend fs List.mem_cons_self)
      exact ⟨hfresh, _, rfl, (hput { size := blockSize } (framed_new blockSize) rfl hfresh).mpr hsend⟩

theorem sends_messages {n : Nat} {p q : π} {rows : List (List (Fallible (DBDataType × ExecutionResult)))} {e : Option Fault}
    (s : Server π δ τ) (hrows : Rows engine (seen s.session none) n p rows e q) (he : e = none) {rss : List (List Field)}
    (hread : rows.map (rowFields engine.conv engine.fmt) = rss.map .ok) (hlen : ∀ fs ∈ rss, (dataRow fs).length ≤ blockSize)
    {w : PgDataWriter} (hw : w.Framed) (hsize : w.size = blockSize) :
    Sends engine (s.place p (.building n w)) (w.data ++ rss.flatMap dataRow) (s.place q .finishing) ↔
      ∀ fs ∈ rss, Sendable fs := by
  induction hrows generalizing w rss with
  | throws hn h => cases he
  | @last p q hn h =>
    obtain ⟨fs, rss, rfl⟩ : ∃ fs rss', rss = fs :: rss' := by cases rss <;> simp at hread ⊢
    obtain ⟨hrow, hread⟩ := List.cons.inj hread
    obtain rfl : rss = [] := List.map_eq_nil_iff.mp hread.symm
    refine sends_messages_cons s hn hrow (hlen fs List.mem_cons_self) (fun w hw _ out t hs => ?_) (fun w hw _ => ?_) hw hsize
    · obtain ⟨rfl, -⟩ := (sends_looping_false s h hw).mp hs
      exact ⟨[], (List.append_nil _).symm⟩
    · rw [sends_looping_false s h hw]
      simp
  | @more p p' q rows e hn h hrest ih =>
    obtain ⟨fs, rss, rfl⟩ : ∃ fs rss', rss = fs :: rss' := by cases rss <;> simp at hread ⊢
    obtain ⟨hrow, hread⟩ := List.cons.inj hread
    refine sends_messages_cons s hn hrow (hlen fs List.mem_cons_self) (fun w hw hsize out t hs => ?_)
      (fun w hw hsize => ?_) hw hsize
    · rw [sends_looping_true s h] at hs
      exact sends_prefix s hrest he hread hw hsize hs
    · rw [sends_looping_true s h]
      exact ih he hread (fun gs hgs => hlen gs (List.mem_cons_of_mem fs hgs)) hw hsize

/-- The loop sends the messages of the rows, in their order and each once, and then calls
`handleExecutionDone`, exactly when all of them are sendable. -/
theorem sends_messages_iff {p q : π} {rows : List (List (Fallible (DBDataType × ExecutionResult)))} {s : Server π δ τ}
    (hplan : s.session.plan = some p)
    (hentered : s.session.control = .building (engine.getResultColumns p) { size := blockSize })
    (hrows : Rows engine (seen s.session none) (engine.getResultColumns p) p rows none q) {rss : List (List Field)}
    (hread : rows.map (rowFields engine.conv engine.fmt) = rss.map .ok) (hlen : ∀ fs ∈ rss, (dataRow fs).length ≤ blockSize) :
    Sends engine s (rss.flatMap dataRow) (s.place q .finishing) ↔ ∀ fs ∈ rss, Sendable fs := by
  have hsends := sends_messages s hrows rfl hread hlen (framed_new blockSize) rfl
  rwa [eq_place hplan hentered] at hsends

/-- The plans of this server are lists of rows. -/
def rowsPlan : ExecutionPlan (List (List (DBDataType × ExecutionResult))) Unit where
  «begin» _ _ := return ()
  next _ rows :=
    match rows with
    | _ :: row :: rest => .ok true (row :: rest)
    | _ => .ok false []
  «end» := return ()
  getResultColumns rows := (rows.headD []).length
  getProjectionName _ _ := []
  getResultType rows i := match (rows.headD [])[i]? with
    | some c => .ok c.1
    | none => throwExecution "no column"
  getResult rows i := match (rows.headD [])[i]? with
    | some c => .ok c.2
    | none => throwExecution "no column"
  getInfoString _ := bytes "SELECT"

def rowsEngine : Engine (List (List (DBDataType × ExecutionResult))) Unit Unit where
  toExecutionPlan := rowsPlan
  parseSql _ := { tree := none, params := 0, allocs := [], error := none }
  setBindParamMode _ _ := id
  setString _ _ := id
  buildPlan _ := .ok []
  emptyPlan := []
  conv := ignoringEngine.conv
  fmt := ignoringEngine.fmt

/-- `handleExecutionResult` is called for the rows of a plan. -/
def rowsServer (rows : List (List (DBDataType × ExecutionResult))) : Server (List (List (DBDataType × ExecutionResult))) Unit Unit :=
  place ⟨{ index := 0, qtype := char "Q" }, ()⟩ rows (.building (rowsPlan.getResultColumns rows) { size := blockSize })

theorem sends_messages_iff_twoRows :
    Sends rowsEngine (rowsServer [[(.int32, .int 5)], [(.int32, .int 7)]])
        (dataRow [⟨.printed, some (bytes "5")⟩] ++ dataRow [⟨.printed, some (bytes "7")⟩]) ((rowsServer []).place [] .finishing) ↔
      ∀ fs ∈ [[(⟨.printed, some (bytes "5")⟩ : Field)], [⟨.printed, some (bytes "7")⟩]], Sendable fs := by
  have hlast : Rows rowsEngine none 1 [[(.int32, .int 7)]] [SessionInfo.currentRow rowsEngine [[(.int32, .int 7)]] 1] none [] :=
    .last rfl rfl
  have hrows : Rows rowsEngine none 1 [[(.int32, .int 5)], [(.int32, .int 7)]] _ none [] := .more rfl rfl hlast
  exact @sends_messages_iff _ _ _ rowsEngine _ _ _ (rowsServer [[(.int32, .int 5)], [(.int32, .int 7)]]) rfl rfl hrows
    [[⟨.printed, some (bytes "5")⟩], [⟨.printed, some (bytes "7")⟩]] rfl (by decide)

/-- A text and a number whose message is as long as the buffer. -/
def exactRow : List (DBDataType × ExecutionResult) :=
  [(.string, .string (List.replicate (blockSize - 16) 97)), (.int32, .int 5)]

def exactFields : List Field := [⟨.copied, some (List.replicate (blockSize - 16) 97)⟩, ⟨.printed, some (bytes "5")⟩]

theorem length_dataRow_exactFields : (dataRow exactFields).length = blockSize := by
  rw [length_dataRow (by simp [exactFields])]
  simp only [exactFields, List.flatMap_cons, List.flatMap_nil, Field.message, List.length_append, List.length_replicate,
    ByteOrder.length_toBig]
  decide

/-- The message of this row fits the buffer, and is never sent. -/
theorem exactRow_not_sent :
    Rows rowsEngine none 2 [exactRow] [SessionInfo.currentRow rowsEngine [exactRow] 2] none [] ∧
      rowFields rowsEngine.conv rowsEngine.fmt (SessionInfo.currentRow rowsEngine [exactRow] 2) = .ok exactFields ∧
        (dataRow exactFields).length ≤ blockSize ∧ ∀ t, ¬ Sends rowsEngine (rowsServer [exactRow]) (dataRow exactFields) t := by
  have hrow : rowFields rowsEngine.conv rowsEngine.fmt (SessionInfo.currentRow rowsEngine [exactRow] 2) = .ok exactFields := rfl
  refine ⟨.last rfl rfl, hrow, length_dataRow_exactFields.le, fun t => ?_⟩
  have ht : ∀ f ∈ exactFields, f.WellTimed := by
    intro f hf len t hp
    simp only [exactFields, List.mem_cons, List.not_mem_nil, or_false] at hf
    rcases hf with rfl | rfl <;> cases hp
  have hroom : ¬ Room blockSize 0 exactFields := by
    rintro (h | h)
    · cases h
    · have := (rowFits_iff (by simp [exactFields]) ht).mp h
      rw [length_dataRow_exactFields] at this
      simp [exactFields, Field.slack] at this
  exact not_sends_fresh ⟨{ index := 0, qtype := char "Q" }, ()⟩ hrow rfl hroom

theorem terminates_iff_oneRow :
    ((∃ out t, Sends rowsEngine (rowsServer [[(.int32, .int 5)]]) out t) ∧
        ∀ u, Within rowsEngine (rowsServer [[(.int32, .int 5)]]) u → Entered rowsEngine u → Progresses rowsEngine u) ↔
      Placed blockSize 0 [[(⟨.printed, some (bytes "5")⟩ : Field)]] :=
  @terminates_iff _ _ _ rowsEngine _ _ [SessionInfo.currentRow rowsEngine [[(.int32, .int 5)]] 1] _ _ rfl rfl
    (.last rfl rfl)

def longText : Bytes := List.replicate 60000 97

def longRow : List (DBDataType × ExecutionResult) := List.replicate 9 (.string, .string longText)

def longFields : List Field := List.replicate 9 ⟨.copied, some longText⟩

theorem length_longFields : (longFields.flatMap Field.message).length = 9 * 60004 := by
  have hmessage : (⟨.copied, some longText⟩ : Field).message.length = 60004 := by
    rw [Field.message, List.length_append, ByteOrder.length_toBig, longText, List.length_replicate]
  rw [longFields, List.length_flatMap, List.map_replicate, List.sum_replicate, hmessage]
  rfl

/-- The plan has one row, and the loop is never left. -/
theorem longRow_not_terminates :
    Rows rowsEngine none 9 [longRow] [SessionInfo.currentRow rowsEngine [longRow] 9] none [] ∧
      (rowsServer [longRow]).advance rowsEngine = rowsServer [longRow] ∧
        ∀ out t, ¬ Sends rowsEngine (rowsServer [longRow]) out t := by
  have hrow : rowFields rowsEngine.conv rowsEngine.fmt (SessionInfo.currentRow rowsEngine [longRow] 9) = .ok longFields := rfl
  have hne : longFields ≠ [] := List.cons_ne_nil _ _
  have ht : ∀ f ∈ longFields, f.WellTimed := by
    intro f hf len t hp
    obtain rfl := List.eq_of_mem_replicate hf
    cases hp
  have hfit : ¬ RowFits blockSize 0 longFields := by
    intro h
    have := (rowFits_iff hne ht).mp h
    rw [length_dataRow hne, length_longFields, blockSize] at this
    omega
  obtain ⟨hfull, hprepared⟩ := writeRow_of_not_fits (printed_of_rowFields _ _ hrow) (framed_new blockSize) hfit
  have hstuck := @advance_building_full _ _ _ rowsEngine 9 (by decide) ⟨{ index := 0, qtype := char "Q" }, ()⟩
    _ _ _ (buildData_row hrow _) hfull
  rw [hprepared, if_pos rfl] at hstuck
  exact ⟨.last rfl rfl, hstuck, fun out t => not_sends_of_stuck (inLoop_building _ _ _ _) hstuck⟩

end Server

end LevelPgServer
