import LevelPgServer.Server.DataRowMessage

namespace LevelPgServer

open ByteOrder

namespace PostgresProtocol

/-- A message of a type: its length counts its own four bytes. -/
def frame (c : UInt8) (body : Bytes) : Bytes := c :: toBig 4 (4 + body.length) ++ body

def typesFuel : Nat → Bytes → List UInt8
  | 0, _ | _, [] => []
  | fuel + 1, c :: rest => c :: typesFuel fuel (rest.drop (ofBig (rest.take 4)))

/-- The types of the messages in the bytes, as a client reads them. -/
def types (bs : Bytes) : List UInt8 := typesFuel bs.length bs

theorem typesFuel_eq {fuel : Nat} {bs : Bytes} (h : bs.length ≤ fuel) : typesFuel fuel bs = types bs := by
  induction fuel using Nat.strong_induction_on generalizing bs with
  | h fuel ih =>
    cases bs with
    | nil => cases fuel <;> rfl
    | cons c rest =>
      obtain _ | fuel := fuel
      · simp at h
      · have hdrop : (rest.drop (ofBig (rest.take 4))).length ≤ rest.length := by simp
        rw [List.length_cons] at h
        rw [types, List.length_cons, typesFuel, typesFuel, ih fuel (by omega) (by omega)]
        obtain hlt | heq := Nat.lt_or_eq_of_le (show rest.length ≤ fuel by omega)
        · rw [ih rest.length (by omega) hdrop]
        · rw [heq, ih fuel (by omega) (by omega)]

theorem types_frame {c : UInt8} {body : Bytes} (h : 4 + body.length < 256 ^ 4) (rest : Bytes) :
    types (frame c body ++ rest) = c :: types rest := by
  rw [frame, List.append_assoc, List.cons_append, types, List.length_cons, typesFuel,
    List.take_left' (length_toBig 4 _), ofBig_toBig_of_lt h]
  rw [← List.append_assoc, List.drop_left' (by simp)]
  rw [typesFuel_eq (by simp; omega)]

inductive Frames : List UInt8 → Bytes → Prop
  | nil : Frames [] []
  | cons (c : UInt8) (body : Bytes) (h : 4 + body.length < 256 ^ 4) {ts : List UInt8} {bs : Bytes} (hf : Frames ts bs) :
      Frames (c :: ts) (frame c body ++ bs)

theorem Frames.types_eq {ts : List UInt8} {bs : Bytes} (h : Frames ts bs) : types bs = ts := by
  induction h with
  | nil => rfl
  | cons c body h hf ih => rw [types_frame h, ih]

theorem Frames.append {ts us : List UInt8} {bs cs : Bytes} (h : Frames ts bs) (h' : Frames us cs) :
    Frames (ts ++ us) (bs ++ cs) := by
  induction h with
  | nil => exact h'
  | cons c body h hf ih =>
    rw [List.cons_append, List.append_assoc]
    exact .cons c body h ih

theorem Frames.snoc {ts : List UInt8} {bs : Bytes} (h : Frames ts bs) {c : UInt8} {body : Bytes}
    (hlen : 4 + body.length < 256 ^ 4) : Frames (ts ++ [c]) (bs ++ frame c body) := by
  have hone := Frames.cons c body hlen .nil
  rw [List.append_nil] at hone
  exact h.append hone

end PostgresProtocol

namespace PgDataWriter

open PostgresProtocol

/-- `w'` is reached from `w` while a message is written. -/
structure Grows (w w' : PgDataWriter) : Prop where
  ext : Extends w w'
  full : w'.full = false → w.full = false
  bound : w.data.length ≤ w.size → w'.data.length ≤ w'.size

theorem Grows.refl (w : PgDataWriter) : Grows w w := ⟨Extends.refl w, id, id⟩

theorem Grows.trans {w w' w'' : PgDataWriter} (h : Grows w w') (h' : Grows w' w'') : Grows w w'' :=
  ⟨h.ext.trans h'.ext, h.full ∘ h'.full, h'.bound ∘ h.bound⟩

theorem Puts.grows {Room : Prop} {bs : Bytes} {w w' : PgDataWriter} (h : Puts Room bs w w')
    (hbound : w.data.length ≤ w.size → w'.data.length ≤ w'.size) : Grows w w' :=
  ⟨h.ext, fun hw' => by
    cases hw : w.full with
    | false => rfl
    | true => exact absurd (h.full.mpr (.inl hw)) (by simp [hw']), hbound⟩

theorem grows_put (w : PgDataWriter) (bs : Bytes) : Grows w (w.put bs) := by
  refine (puts_put bs w).grows fun h => ?_
  rw [put]
  split
  · exact h
  · split
    · next hroom => simpa using hroom
    · exact h

/-- The buffer holds whole messages of these types and nothing else. -/
structure Holds (ts : List UInt8) (w : PgDataWriter) : Prop where
  framed : w.Framed
  size : w.size = blockSize
  bound : w.data.length ≤ w.size
  frames : Frames ts w.data

theorem holds_new : Holds [] { size := blockSize } := ⟨framed_new _, rfl, Nat.zero_le _, .nil⟩

theorem Holds.types_prepared {ts : List UInt8} {w : PgDataWriter} (h : Holds ts w) : types w.prepared = ts := by
  rw [prepared, h.framed.lastPrepare, List.take_length, h.frames.types_eq]

theorem blockSize_lt : blockSize < 256 ^ 4 := by decide

theorem puts_begin {w : PgDataWriter} (hw : w.full = false) (c : UInt8) :
    Puts (w.data.length + (1 + 4) ≤ w.size) ([c] ++ intToBig 4 0) w (w.begin c) := by
  have hput := puts_put [c] w
  rw [«begin», ← hw]
  exact hput.append (puts_addInt32 0 _) rfl

theorem grows_begin {w : PgDataWriter} (hw : w.full = false) (c : UInt8) : Grows w (w.begin c) := by
  rw [«begin», ← hw]
  exact (grows_put w [c]).trans (grows_put _ _)

theorem Holds.add {ts : List UInt8} {w w' : PgDataWriter} (h : Holds ts w) {c : UInt8} (hg : Grows (w.begin c) w')
    (hfull : w'.full = false) : Holds (ts ++ [c]) w'.end ∧ w'.end.data.length = w'.data.length := by
  have hbegin := puts_begin h.framed.full c
  have hroom : w.data.length + (1 + 4) ≤ w.size := by
    by_contra hne
    exact absurd (hbegin.full.mpr (.inr hne)) (by simp [hg.full hfull])
  obtain ⟨body, hbody⟩ := hg.ext.data
  have hdata : w'.data = w.data ++ (c :: intToBig 4 0 ++ [] ++ body) := by
    rw [hbody, hbegin.data h.framed.full hroom]
    simp
  have hprepare : w'.lastPrepare = w.data.length :=
    hg.ext.lastPrepare.trans (hbegin.ext.lastPrepare.trans h.framed.lastPrepare)
  have hsize : w'.size = w.size := hg.ext.size.trans hbegin.ext.size
  have hbound : w'.data.length ≤ w'.size := hg.bound ((grows_begin h.framed.full c).bound h.bound)
  have hpatch := patch_frame w.data body c []
  rw [← hdata, ← hprepare] at hpatch
  have hend : w'.end.data = w.data ++ frame c body := by
    rw [«end», if_neg (by simp [hfull])]
    dsimp only
    rw [hpatch, frame]
    simp
  have hlen : 4 + body.length < 256 ^ 4 := by
    have hlt := blockSize_lt
    rw [hsize, h.size, hdata] at hbound
    simp only [List.append_nil, List.length_append, List.length_cons, length_intToBig] at hbound
    omega
  have hsame : w'.end.data.length = w'.data.length := by
    rw [hend, hdata, frame]
    simp
  have hendSize : w'.end.size = w'.size := by rw [«end», if_neg (by simp [hfull])]
  refine ⟨⟨⟨?_, ?_⟩, hendSize.trans (hsize.trans h.size), by rwa [hsame, hendSize], ?_⟩, hsame⟩
  · rw [«end», if_neg (by simp [hfull])]
    exact hfull
  · rw [hsame, «end», if_neg (by simp [hfull])]
  · rw [hend]
    exact h.frames.snoc hlen

theorem Holds.not_add {ts : List UInt8} {w w' : PgDataWriter} (h : Holds ts w) {c : UInt8} (hg : Grows (w.begin c) w')
    (hfull : w'.full = true) : w'.end = w' ∧ types w'.prepared = ts := by
  refine ⟨by rw [«end», if_pos hfull], ?_⟩
  obtain ⟨bs, hbs⟩ := ((grows_begin h.framed.full c).trans hg).ext.data
  rw [prepared, hg.ext.lastPrepare, (grows_begin h.framed.full c).ext.lastPrepare, h.framed.lastPrepare, hbs, List.take_left,
    h.frames.types_eq]

/-- There is room for `n` more bytes. -/
def Roomy (n : Nat) (w : PgDataWriter) : Prop := w.full = false ∧ w.data.length + n ≤ w.size

theorem Roomy.mono {n m : Nat} {w : PgDataWriter} (h : Roomy m w) (hle : n ≤ m) : Roomy n w :=
  ⟨h.1, le_trans (Nat.add_le_add_left hle _) h.2⟩

theorem Roomy.put {n : Nat} {w : PgDataWriter} {bs : Bytes} (h : Roomy (bs.length + n) w) : Roomy n (w.put bs) := by
  obtain ⟨hw, hroom⟩ := h
  rw [PgDataWriter.put, if_neg (by simp [hw]), if_pos (by omega)]
  exact ⟨hw, by rw [List.length_append]; dsimp only; omega⟩

theorem Roomy.begin {n : Nat} {w : PgDataWriter} (h : Roomy (5 + n) w) (c : UInt8) : Roomy n (w.begin c) := by
  obtain ⟨hw, hroom⟩ := h
  have hput : Roomy (4 + n) ({ w with full := false }.put [c]) := Roomy.put ⟨rfl, by
    rw [List.length_singleton]
    dsimp only
    omega⟩
  exact Roomy.put (by rwa [length_intToBig])

theorem Roomy.addInt8 {n : Nat} {w : PgDataWriter} (h : Roomy (1 + n) w) (v : Int) : Roomy n (w.addInt8 v) :=
  Roomy.put (by rwa [length_intToBig])

theorem Roomy.addStringZeroEnd {n : Nat} {w : PgDataWriter} {s : Bytes} (h : Roomy (s.length + 1 + n) w) :
    Roomy n (w.addStringZeroEnd s) := Roomy.put (by simpa using h)

theorem Holds.message {ts : List UInt8} {w w' : PgDataWriter} (h : Holds ts w) {c : UInt8} (hg : Grows (w.begin c) w') {n : Nat}
    (hroom : Roomy n w') : Holds (ts ++ [c]) w'.end ∧ Roomy n w'.end := by
  obtain ⟨hadd, hlen⟩ := h.add hg hroom.1
  refine ⟨hadd, hadd.framed.full, ?_⟩
  rw [hlen, hadd.size, ← h.size, ← ((grows_begin h.framed.full c).trans hg).ext.size]
  exact hroom.2

end PgDataWriter

namespace PostgresProtocol

open PgDataWriter

theorem types_sync : types (buildSync blockSize) = [char "Z"] := by decide +kernel

theorem grows_addDescriptions (w : PgDataWriter) (i : Nat) (columns : List (Bytes × DBDataType)) :
    Grows w (addDescriptions w i columns) := by
  induction columns generalizing w i with
  | nil => exact .refl w
  | cons column columns ih =>
    obtain ⟨sName, type⟩ := column
    rw [addDescriptions]
    exact (grows_put _ _).trans ((grows_put _ _).trans ((grows_put _ _).trans ((grows_put _ _).trans
      ((grows_put _ _).trans ((grows_put _ _).trans ((grows_put _ _).trans (ih _ _)))))))

theorem types_description {columns : List (Bytes × DBDataType)} {out : Bytes}
    (h : buildColumnDescription blockSize columns = .ok out) : types out = [char "T"] := by
  rw [buildColumnDescription] at h
  have hgrows : Grows (({ size := blockSize } : PgDataWriter).begin (char "T"))
      (addDescriptions ((({ size := blockSize } : PgDataWriter).begin (char "T")).addInt16 columns.length) 0 columns) :=
    (grows_put _ _).trans (grows_addDescriptions _ _ _)
  split at h
  · cases h
  · next hfull =>
    cases h
    have hnot : (addDescriptions ((({ size := blockSize } : PgDataWriter).begin (char "T")).addInt16 columns.length) 0
        columns).full = false := by
      rw [Bool.eq_false_iff]
      intro hw
      exact hfull (by rw [«end», if_pos hw]; exact hw)
    exact (holds_new.add hgrows hnot).1.types_prepared

theorem Holds.sync {ts : List UInt8} {w : PgDataWriter} (h : Holds ts w) {n : Nat} (hroom : Roomy (6 + n) w) :
    Holds (ts ++ [char "Z"]) (syncMessage w) ∧ Roomy n (syncMessage w) :=
  h.message (grows_put _ _) (Roomy.addInt8 (Roomy.begin (by rwa [← Nat.add_assoc]) _) 73)

theorem types_executionDone (parsed bind : Bool) {sInfo : Bytes} (hinfo : sInfo.length + 22 ≤ blockSize) (sync : Bool) :
    types (buildExecutionDone blockSize parsed bind sInfo sync) =
      (if parsed then [char "1"] else []) ++ (if bind then [char "2"] else []) ++ [char "C"] ++
        (if sync then [char "Z"] else []) := by
  have hparsed : Holds (if parsed then [char "1"] else [])
      (if parsed then (({ size := blockSize } : PgDataWriter).begin (char "1")).end else { size := blockSize }) ∧
        Roomy (17 + sInfo.length) (if parsed then (({ size := blockSize } : PgDataWriter).begin (char "1")).end else
          { size := blockSize }) := by
    cases parsed with
    | true => exact holds_new.message (.refl _) (Roomy.begin ⟨rfl, by simp; omega⟩ _)
    | false => exact ⟨holds_new, rfl, by simp; omega⟩
  obtain ⟨h1, hroom1⟩ := hparsed
  rw [buildExecutionDone]
  generalize (if parsed then [char "1"] else []) = ts at h1
  generalize (if parsed then (({ size := blockSize } : PgDataWriter).begin (char "1")).end else
    ({ size := blockSize } : PgDataWriter)) = w1 at h1 hroom1
  have hbind : Holds (ts ++ if bind then [char "2"] else []) (if bind then (w1.begin (char "2")).end else w1) ∧
      Roomy (12 + sInfo.length) (if bind then (w1.begin (char "2")).end else w1) := by
    cases bind with
    | true => exact h1.message (.refl _) (Roomy.begin (hroom1.mono (by omega)) _)
    | false => exact ⟨by simpa using h1, hroom1.mono (by omega)⟩
  obtain ⟨h2, hroom2⟩ := hbind
  have hdone := h2.message (c := char "C") (n := 6 + 0) (grows_put _ (sInfo ++ [0]))
    (Roomy.addStringZeroEnd (Roomy.begin (hroom2.mono (by omega)) _))
  cases sync with
  | true => exact (Holds.sync hdone.1 hdone.2).1.types_prepared
  | false => simpa [addStringZeroEnd] using hdone.1.types_prepared

theorem holds_exceptionWriter {msg : Bytes} {startPos : Int}
    (h : msg.length + (intText startPos).length + 40 ≤ blockSize) (sync : Bool) :
    Holds (char "E" :: (if sync then [char "Z"] else [])) (exceptionWriter blockSize msg startPos sync) := by
  have hcode : ∀ (w : PgDataWriter) (c : Int) (s : Bytes) (n : Nat), Roomy (s.length + 2 + n) w →
      Grows w ((w.addInt8 c).addStringZeroEnd s) ∧ Roomy n ((w.addInt8 c).addStringZeroEnd s) := by
    intro w c s n hw
    exact ⟨(grows_put _ _).trans (grows_put _ _), Roomy.addStringZeroEnd (Roomy.addInt8 (hw.mono (by omega)) c)⟩
  have hnew : Roomy (msg.length + (intText startPos).length + 35) (({ size := blockSize } : PgDataWriter).begin (char "E")) :=
    Roomy.begin ⟨rfl, by simp; omega⟩ _
  obtain ⟨g1, r1⟩ := hcode _ (char "S").toNat (bytes "ERROR") (msg.length + (intText startPos).length + 28)
    (hnew.mono (by simp [bytes]; omega))
  obtain ⟨g2, r2⟩ := hcode _ (char "C").toNat (bytes "00000") (msg.length + (intText startPos).length + 21)
    (r1.mono (by simp [bytes]; omega))
  obtain ⟨g3, r3⟩ := hcode _ (char "M").toNat msg ((intText startPos).length + 19) (r2.mono (by omega))
  have g4 := g1.trans (g2.trans g3)
  rw [exceptionWriter]
  generalize ((((((({ size := blockSize } : PgDataWriter).begin (char "E")).addInt8 (char "S").toNat).addStringZeroEnd
    (bytes "ERROR")).addInt8 (char "C").toNat).addStringZeroEnd (bytes "00000")).addInt8 (char "M").toNat).addStringZeroEnd msg =
      w at r3 g4
  have hpos : Grows w (if 0 ≤ startPos then (w.addInt8 (char "P").toNat).addStringZeroEnd (intText startPos) else w) ∧
      Roomy 17 (if 0 ≤ startPos then (w.addInt8 (char "P").toNat).addStringZeroEnd (intText startPos) else w) := by
    split
    · exact hcode w _ _ 17 (r3.mono (by omega))
    · exact ⟨.refl w, r3.mono (by omega)⟩
  have hend := holds_new.message (n := 6 + 0) (g4.trans (hpos.1.trans (grows_put _ _))) (Roomy.addInt8 (hpos.2.mono (by omega)) 0)
  cases sync with
  | true => exact (Holds.sync hend.1 hend.2).1
  | false => exact hend.1

theorem types_exception {msg : Bytes} {startPos : Int} (h : msg.length + (intText startPos).length + 40 ≤ blockSize)
    (sync : Bool) :
    types (buildException blockSize msg startPos sync) = char "E" :: (if sync then [char "Z"] else []) := by
  have hwriter := holds_exceptionWriter h sync
  rw [buildException, if_neg (by simp [hwriter.framed.full])]
  exact hwriter.types_prepared

/-- What has been written and ended is sent, whatever stands before it. -/
theorem prepared_end_ne_nil {w : PgDataWriter} {bs : Bytes} (hbs : bs ≠ []) (h : (w.put bs).end.full = false) :
    (w.put bs).end.prepared ≠ [] := by
  have hfull : (w.put bs).full = false := by
    rw [Bool.eq_false_iff]
    intro hw
    rw [«end», if_pos hw, hw] at h
    cases h
  have hdata : (w.put bs).data ≠ [] := by
    rw [put] at hfull ⊢
    split_ifs at hfull ⊢ with hw
    · exact absurd hw (by simp [hfull])
    · simp [hbs]
  rw [«end», if_neg (by simp [hfull]), prepared]
  simp [hdata, ByteOrder.toBig]

theorem exceptionWriter_ne_nil {msg : Bytes} {startPos : Int} {sync : Bool}
    (h : (exceptionWriter blockSize msg startPos sync).full = false) : (exceptionWriter blockSize msg startPos sync).prepared ≠ [] := by
  have hbs : ∀ v : Int, intToBig 1 v ≠ [] := fun v hnil => by
    have hlen := length_intToBig 1 v
    rw [hnil] at hlen
    cases hlen
  cases sync with
  | false => exact prepared_end_ne_nil (hbs 0) h
  | true => exact prepared_end_ne_nil (hbs 73) h

theorem buildException_ne_nil (msg : Bytes) {startPos : Int} (h : (intText startPos).length + 40 ≤ 100) (sync : Bool) :
    buildException blockSize msg startPos sync ≠ [] := by
  rw [buildException]
  split
  · have hblock : 100 ≤ blockSize := by decide
    have hcut : (msg.take (blockSize - 100)).length + (intText startPos).length + 40 ≤ blockSize := by
      have htake := List.length_take_le (blockSize - 100) msg
      omega
    exact exceptionWriter_ne_nil (holds_exceptionWriter hcut sync).framed.full
  · next hfull => exact exceptionWriter_ne_nil (by simpa using hfull)

theorem bound_addDateTimeAsString (t : Bytes) (len : Nat) {w : PgDataWriter} (h : w.data.length ≤ w.size) :
    (w.addDateTimeAsString t len).data.length ≤ (w.addDateTimeAsString t len).size := by
  have hlen := (grows_put w (intToBig 4 len)).bound h
  rw [addDateTimeAsString]
  split
  · exact hlen
  · split
    · exact hlen
    · split
      · next htext =>
        simp only [List.length_append]
        omega
      · exact hlen

theorem grows_write {f : Field} (hf : f.Printed) (w : PgDataWriter) : Grows w (f.write w) := by
  refine (Field.puts_write hf w).grows fun h => ?_
  obtain ⟨printing, text⟩ := f
  cases text with
  | none => exact (grows_put w _).bound h
  | some t =>
    have hstring := ((grows_put w (intToBig 4 t.length)).trans (grows_put _ t)).bound h
    cases printing with
    | copied => exact hstring
    | printed =>
      simp only [Field.write, addValueAsString]
      split
      · exact h
      · split
        · exact h
        · split
          · exact hstring
          · exact h
    | time len => exact bound_addDateTimeAsString t len h

theorem grows_writeAll {fs : List Field} (hfs : ∀ f ∈ fs, f.Printed) (w : PgDataWriter) :
    Grows w (fs.foldl (fun w f => f.write w) w) := by
  induction fs generalizing w with
  | nil => exact .refl w
  | cons f fs ih =>
    exact (grows_write (hfs f List.mem_cons_self) w).trans (ih (fun g hg => hfs g (List.mem_cons_of_mem f hg)) (f.write w))

/-- Another row behind the rows that are there, or the rows alone when it does not fit. -/
theorem holds_buildData {conv : Conversions} {fmt : Formats} {row : List (Fallible (DBDataType × ExecutionResult))}
    {w w' : PgDataWriter} {n : Nat} (hw : Holds (List.replicate n (char "D")) w) (h : buildData conv fmt row w = .ok w') :
    (w'.full = false → Holds (List.replicate (n + 1) (char "D")) w') ∧
      (w'.full = true → types w'.prepared = List.replicate n (char "D")) := by
  rw [buildData_eq] at h
  cases hrow : rowFields conv fmt row with
  | error f =>
    rw [hrow] at h
    cases h
  | ok fs =>
    rw [hrow] at h
    cases h
    have hgrows : Grows (w.begin (char "D")) (fs.foldl (fun w f => f.write w) ((w.begin (char "D")).addInt16 fs.length)) :=
      (grows_put _ _).trans (grows_writeAll (printed_of_rowFields conv fmt hrow) _)
    rw [List.replicate_succ']
    simp only [writeRow]
    cases hfull : (fs.foldl (fun w f => f.write w) ((w.begin (char "D")).addInt16 fs.length)).full with
    | false =>
      have hadd := (hw.add hgrows hfull).1
      exact ⟨fun _ => hadd, fun hf => absurd hf (by simp [hadd.framed.full])⟩
    | true =>
      obtain ⟨hsame, htypes⟩ := hw.not_add hgrows hfull
      rw [hsame]
      exact ⟨fun hf => absurd hf (by simp [hfull]), fun _ => htypes⟩

end PostgresProtocol

end LevelPgServer
