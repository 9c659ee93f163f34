import LevelPgServer.Server.Messages

namespace LevelPgServer

open ByteOrder PgDataWriter

namespace PostgresProtocol

/-- `buildException` as it calls itself; nothing is returned where the fuel runs out. -/
def buildExceptionRec : Nat → Nat → Bytes → Int → Bool → Option Bytes
  | 0, _, _, _, _ => none
  | fuel + 1, size, msg, startPos, sync =>
    let w := exceptionWriter size msg startPos sync
    if w.full then buildExceptionRec fuel size (msg.take (size - 100)) startPos sync else some w.prepared

def errorFields (text : Bytes) (startPos : Int) : List (UInt8 × Bytes) :=
  [(char "S", bytes "ERROR"), (char "C", bytes "00000"), (char "M", text)] ++
    if 0 ≤ startPos then [(char "P", intText startPos)] else []

def fieldsBody (fs : List (UInt8 × Bytes)) : Bytes := fs.flatMap (fun f => f.1 :: (f.2 ++ [0])) ++ [0]

def readyForQuery : Bytes := frame (char "Z") [73]

/-- A reply that a client can read: no text ends before its end, and the lengths are right. -/
structure ErrorReply (msg : Bytes) (startPos : Int) (sync : Bool) (out : Bytes) : Prop where
  fits : out.length ≤ blockSize
  frames : ∃ text, text <+: msg ∧ (∀ f ∈ errorFields text startPos, 0 ∉ f.2) ∧
    out = frame (char "E") (fieldsBody (errorFields text startPos)) ++ if sync then readyForQuery else []

/-- The bytes of the error response with the whole message. -/
def replyLength (msg : Bytes) (startPos : Int) : Nat :=
  22 + msg.length + if 0 ≤ startPos then (intText startPos).length + 2 else 0

/-- The message, or what is left of it where it has to be cut. -/
def sentText (msg : Bytes) (startPos : Int) (sync : Bool) : Bytes :=
  if replyLength msg startPos + (if sync then 6 else 0) ≤ blockSize then msg else msg.take (blockSize - 100)

/-- A full buffer is noticed: behind the part of the error response that has been written there
is no room for the last message. -/
def FullNoticed (msg : Bytes) (startPos : Int) : Prop :=
  msg.length + 21 ≤ blockSize ∧
    (0 ≤ startPos → blockSize < msg.length + 28 ∨ msg.length + 23 + (intText startPos).length ≤ blockSize)

def Deliverable (msg : Bytes) (startPos : Int) (sync : Bool) : Prop :=
  0 ∉ sentText msg startPos sync ∧ (sync = true → FullNoticed msg startPos)

def errorHead : Bytes :=
  [char "E", 0, 0, 0, 0, char "S"] ++ bytes "ERROR" ++ [0, char "C"] ++ bytes "00000" ++ [0, char "M"]

def errorWriter (msg : Bytes) (startPos : Int) : PgDataWriter :=
  let w := ({ size := blockSize, data := errorHead } : PgDataWriter).addStringZeroEnd msg
  let w := if 0 ≤ startPos then (w.addInt8 (char "P").toNat).addStringZeroEnd (intText startPos) else w
  w.addInt8 0

theorem exceptionWriter_eq (msg : Bytes) (startPos : Int) (sync : Bool) :
    exceptionWriter blockSize msg startPos sync =
      if sync then syncMessage (errorWriter msg startPos).end else (errorWriter msg startPos).end := by
  have hhead : (((((({ size := blockSize } : PgDataWriter).begin (char "E")).addInt8 (char "S").toNat).addStringZeroEnd
      (bytes "ERROR")).addInt8 (char "C").toNat).addStringZeroEnd (bytes "00000")).addInt8 (char "M").toNat =
        { size := blockSize, data := errorHead } := by decide +kernel
  rw [exceptionWriter, hhead]
  rfl

theorem blockSize_eq : blockSize = 524288 := rfl

theorem length_errorHead : errorHead.length = 20 := rfl

theorem put_room {size p : Nat} {data bs : Bytes} (h : data.length + bs.length ≤ size) :
    (PgDataWriter.mk size data p false).put bs = PgDataWriter.mk size (data ++ bs) p false := if_pos h

theorem put_no_room {size p : Nat} {data bs : Bytes} (h : size < data.length + bs.length) :
    (PgDataWriter.mk size data p false).put bs = PgDataWriter.mk size data p true :=
  if_neg (c := data.length + bs.length ≤ size) (Nat.not_le.mpr h)

theorem put_full (size : Nat) (data : Bytes) (p : Nat) (bs : Bytes) :
    (PgDataWriter.mk size data p true).put bs = PgDataWriter.mk size data p true := rfl

theorem intToBig_char (c : UInt8) : intToBig 1 c.toNat = [c] := by
  have hsame : UInt8.ofNat c.toNat = c := by simp
  simp [intToBig, intToLittle, toLittle, hsame]

theorem intToBig_zero : intToBig 1 0 = [0] := by decide

theorem errorWriter_of_fits {msg : Bytes} {startPos : Int} (h : replyLength msg startPos ≤ blockSize) :
    errorWriter msg startPos =
      PgDataWriter.mk blockSize (char "E" :: intToBig 4 0 ++ fieldsBody (errorFields msg startPos)) 0 false := by
  have hz : intToBig 4 0 = [0, 0, 0, 0] := by decide
  simp only [errorWriter, addStringZeroEnd, addInt8, intToBig_char, intToBig_zero]
  by_cases hpos : 0 ≤ startPos
  · rw [replyLength, if_pos hpos] at h
    rw [if_pos hpos, put_room (by simp [length_errorHead]; omega), put_room (by simp [length_errorHead]; omega),
      put_room (by simp [length_errorHead]; omega), put_room (by simp [length_errorHead]; omega)]
    simp [errorFields, fieldsBody, hpos, hz, errorHead]
  · rw [replyLength, if_neg hpos] at h
    rw [if_neg hpos, put_room (by simp [length_errorHead]; omega), put_room (by simp [length_errorHead]; omega)]
    simp [errorFields, fieldsBody, hpos, hz, errorHead]

/-- Where the error response ends when it does not fit: before the message, before its position
or in front of the last zero. -/
def cutLength (msg : Bytes) (startPos : Int) : Nat :=
  if blockSize < msg.length + 21 then 20
  else if startPos < 0 ∨ blockSize < msg.length + 22 then msg.length + 21
  else if blockSize < msg.length + 23 + (intText startPos).length then msg.length + 22
  else msg.length + 23 + (intText startPos).length

theorem errorWriter_of_not_fits {msg : Bytes} {startPos : Int} (h : blockSize < replyLength msg startPos) :
    ∃ rest, errorWriter msg startPos = PgDataWriter.mk blockSize (errorHead ++ rest) 0 true ∧
      (errorHead ++ rest).length = cutLength msg startPos := by
  simp only [errorWriter, addStringZeroEnd, addInt8, intToBig_char, intToBig_zero]
  by_cases hmsg : blockSize < msg.length + 21
  · rw [put_no_room (by simp [length_errorHead]; omega), cutLength, if_pos hmsg]
    refine ⟨[], ?_, by simp [length_errorHead]⟩
    split <;> simp [put_full]
  · rw [put_room (by simp [length_errorHead]; omega), cutLength, if_neg hmsg]
    by_cases hpos : 0 ≤ startPos
    · rw [replyLength, if_pos hpos] at h
      rw [if_pos hpos]
      by_cases hcode : blockSize < msg.length + 22
      · rw [put_no_room (by simp [length_errorHead]; omega), put_full, put_full, if_pos (.inr hcode)]
        exact ⟨msg ++ [0], rfl, by simp [length_errorHead]; omega⟩
      · rw [put_room (by simp [length_errorHead]; omega), if_neg (by omega)]
        by_cases hpost : blockSize < msg.length + 23 + (intText startPos).length
        · rw [put_no_room (by simp [length_errorHead]; omega), put_full, if_pos hpost]
          exact ⟨msg ++ [0] ++ [char "P"], by simp, by simp [length_errorHead]; omega⟩
        · rw [put_room (by simp [length_errorHead]; omega), put_no_room (by simp [length_errorHead]; omega), if_neg hpost]
          exact ⟨msg ++ [0] ++ [char "P"] ++ (intText startPos ++ [0]), by simp, by simp [length_errorHead]; omega⟩
    · rw [replyLength, if_neg hpos] at h
      rw [if_neg hpos, put_no_room (by simp [length_errorHead]; omega), if_pos (.inl (by omega))]
      exact ⟨msg ++ [0], rfl, by simp [length_errorHead]; omega⟩

def reply (text : Bytes) (startPos : Int) (sync : Bool) : Bytes :=
  frame (char "E") (fieldsBody (errorFields text startPos)) ++ if sync then readyForQuery else []

theorem length_fieldsBody (text : Bytes) (startPos : Int) :
    (fieldsBody (errorFields text startPos)).length + 5 = replyLength text startPos := by
  rw [fieldsBody, errorFields, replyLength]
  split
  · simp [bytes]
    omega
  · simp [bytes]
    omega

theorem end_errorWriter_of_fits {msg : Bytes} {startPos : Int} (h : replyLength msg startPos ≤ blockSize) :
    (errorWriter msg startPos).end =
      PgDataWriter.mk blockSize (frame (char "E") (fieldsBody (errorFields msg startPos))) (replyLength msg startPos) false := by
  have hpatch := patch_frame [] (fieldsBody (errorFields msg startPos)) (char "E") []
  have hlen := length_fieldsBody msg startPos
  rw [errorWriter_of_fits h, «end», if_neg (by simp)]
  simp only [List.nil_append, List.append_nil, List.length_nil, Nat.zero_add, Nat.add_zero] at hpatch
  dsimp only
  rw [hpatch, frame]
  simp
  omega

theorem end_errorWriter_of_not_fits {msg : Bytes} {startPos : Int} (h : blockSize < replyLength msg startPos) :
    (errorWriter msg startPos).end = errorWriter msg startPos := by
  obtain ⟨rest, hw, -⟩ := errorWriter_of_not_fits h
  rw [hw]
  rfl

theorem syncMessage_no_room {w : PgDataWriter} (h : w.size < w.data.length + 6) : (syncMessage w).full = true := by
  obtain ⟨size, data, p, full⟩ := w
  dsimp only at h
  have hbegin : (PgDataWriter.mk size data p full).begin (char "Z") =
      ((PgDataWriter.mk size data p false).put [char "Z"]).put (intToBig 4 0) := rfl
  have hz : (intToBig 4 0).length = 4 := length_intToBig 4 0
  have hi : (intToBig 1 73).length = 1 := length_intToBig 1 73
  rw [syncMessage, hbegin, addInt8]
  by_cases h1 : size < data.length + 1
  · rw [put_no_room (by simpa using h1), put_full, put_full]
    rfl
  · rw [put_room (by simp; omega)]
    by_cases h5 : size < data.length + 5
    · rw [put_no_room (by simp [hz]; omega), put_full]
      rfl
    · rw [put_room (by simp [hz]; omega), put_no_room (by simp [hz, hi]; omega)]
      rfl

theorem syncMessage_room {size p : Nat} {data : Bytes} {full : Bool} (h : data.length + 6 ≤ size) :
    syncMessage (PgDataWriter.mk size data p full) =
      (PgDataWriter.mk size (data ++ (char "Z" :: intToBig 4 0 ++ [] ++ [73])) p false).end := by
  have hbegin : (PgDataWriter.mk size data p full).begin (char "Z") =
      ((PgDataWriter.mk size data p false).put [char "Z"]).put (intToBig 4 0) := rfl
  have hz : (intToBig 4 0).length = 4 := length_intToBig 4 0
  have hi : intToBig 1 73 = [73] := by decide
  rw [syncMessage, hbegin, addInt8, hi, put_room (by simp; omega), put_room (by simp [hz]; omega),
    put_room (by simp [hz]; omega)]
  simp

theorem prepared_end_first (size : Nat) (c : UInt8) (body : Bytes) :
    (PgDataWriter.mk size (c :: intToBig 4 0 ++ [] ++ body) 0 false).end.prepared =
      c :: toBig 4 (4 + body.length) ++ body := by
  have hpatch := patch_frame [] body c []
  simp only [List.nil_append, List.length_nil, Nat.zero_add, Nat.sub_zero] at hpatch
  simp only [«end», prepared, Nat.zero_add, Nat.sub_zero, if_neg Bool.false_ne_true, hpatch]
  simp

theorem exceptionWriter_of_fits {msg : Bytes} {startPos : Int} {sync : Bool}
    (h : replyLength msg startPos + (if sync then 6 else 0) ≤ blockSize) :
    (exceptionWriter blockSize msg startPos sync).full = false ∧
      (exceptionWriter blockSize msg startPos sync).prepared = reply msg startPos sync := by
  have hlen := length_fieldsBody msg startPos
  have hframe : (frame (char "E") (fieldsBody (errorFields msg startPos))).length = replyLength msg startPos := by
    simp [frame]
    omega
  rw [exceptionWriter_eq]
  cases sync with
  | false =>
    rw [if_neg (by simp), end_errorWriter_of_fits (by simpa using h)]
    refine ⟨rfl, ?_⟩
    rw [prepared, ← hframe, List.take_length]
    simp [reply]
  | true =>
    simp only [if_true] at h
    have hpatch := patch_frame (frame (char "E") (fieldsBody (errorFields msg startPos))) [73] (char "Z") []
    rw [if_pos rfl, end_errorWriter_of_fits (by omega), syncMessage_room (by omega), «end», if_neg (by simp), ← hframe]
    refine ⟨rfl, ?_⟩
    simp only [prepared, hpatch]
    simp [reply, readyForQuery, frame]

/-- A part of the message has been written, and the end is noticed. -/
theorem full_exceptionWriter {msg : Bytes} {startPos : Int} {sync : Bool}
    (h : blockSize < replyLength msg startPos + (if sync then 6 else 0)) (hn : sync = true → FullNoticed msg startPos) :
    (exceptionWriter blockSize msg startPos sync).full = true := by
  rw [exceptionWriter_eq]
  cases sync with
  | false =>
    have hlong : blockSize < replyLength msg startPos := by simpa using h
    obtain ⟨rest, hw, -⟩ := errorWriter_of_not_fits hlong
    rw [if_neg (by simp), end_errorWriter_of_not_fits hlong, hw]
  | true =>
    obtain ⟨hmsg, hpos⟩ := hn rfl
    simp only [if_true] at h ⊢
    by_cases hfits : replyLength msg startPos ≤ blockSize
    · have hlen := length_fieldsBody msg startPos
      rw [end_errorWriter_of_fits hfits]
      refine syncMessage_no_room ?_
      simp [frame]
      omega
    · obtain ⟨rest, hw, hcut⟩ := errorWriter_of_not_fits (not_le.mp hfits)
      rw [end_errorWriter_of_not_fits (not_le.mp hfits), hw]
      refine syncMessage_no_room ?_
      dsimp only
      rw [hcut, cutLength, if_neg (by omega)]
      rw [replyLength] at hfits
      by_cases h0 : 0 ≤ startPos
      · have hroom := hpos h0
        rw [if_pos h0] at hfits
        split
        · omega
        · split
          · omega
          · omega
      · rw [if_neg h0] at hfits
        rw [if_pos (.inl (by omega))]
        omega

theorem hidden_exceptionWriter {msg : Bytes} {startPos : Int} (h : ¬ FullNoticed msg startPos) :
    (exceptionWriter blockSize msg startPos true).full = false ∧ ∃ out, out.length ≤ blockSize ∧
      (exceptionWriter blockSize msg startPos true).prepared = char "E" :: toBig 4 (4 + out.length) ++ out := by
  have hsize := blockSize_eq
  have hlong : blockSize < replyLength msg startPos ∧ cutLength msg startPos + 6 ≤ blockSize := by
    rw [FullNoticed, not_and_or, Classical.not_imp, not_or] at h
    obtain h | ⟨h0, h1, h2⟩ := h
    · have hmsg : blockSize < msg.length + 21 := by omega
      rw [replyLength, cutLength, if_pos hmsg]
      omega
    · have hmsg : ¬ blockSize < msg.length + 21 := by omega
      have hcode : ¬ (startPos < 0 ∨ blockSize < msg.length + 22) := by omega
      rw [replyLength, cutLength, if_pos h0, if_neg hmsg, if_neg hcode, if_pos (by omega)]
      omega
  obtain ⟨rest, hw, hcut⟩ := errorWriter_of_not_fits hlong.1
  have hdata : errorHead ++ rest ++ (char "Z" :: intToBig 4 0 ++ [] ++ [73]) =
      char "E" :: intToBig 4 0 ++ [] ++ (errorHead.drop 5 ++ rest ++ (char "Z" :: intToBig 4 0 ++ [] ++ [73])) := by
    have hz : intToBig 4 0 = [0, 0, 0, 0] := by decide
    have hhead : errorHead = char "E" :: (intToBig 4 0 ++ errorHead.drop 5) := by
      rw [hz]
      rfl
    conv_lhs => rw [hhead]
    simp
  rw [exceptionWriter_eq, if_pos rfl, end_errorWriter_of_not_fits hlong.1, hw, syncMessage_room (by omega), hdata]
  refine ⟨rfl, errorHead.drop 5 ++ rest ++ (char "Z" :: intToBig 4 0 ++ [] ++ [73]), ?_, prepared_end_first _ _ _⟩
  rw [List.length_append, length_errorHead] at hcut
  simp [length_errorHead]
  omega

theorem intText_natCast (n : Nat) : intText n = (Nat.toDigits 10 n).map (fun c => UInt8.ofNat c.toNat) := by
  have htext : toString (n : Int) = n.repr := rfl
  rw [intText, bytes, htext, Nat.toList_repr]

theorem length_intText {v : Int} (h0 : 0 ≤ v) (h : v < 10 ^ 10) : (intText v).length ≤ 10 := by
  obtain ⟨n, rfl⟩ := Int.eq_ofNat_of_zero_le h0
  have hn : n < 10 ^ 10 := by omega
  rw [intText_natCast, List.length_map]
  exact (Nat.length_toDigits_le_iff (by decide) (by decide)).mpr hn

theorem zero_notMem_intText {v : Int} (h0 : 0 ≤ v) : 0 ∉ intText v := by
  obtain ⟨n, rfl⟩ := Int.eq_ofNat_of_zero_le h0
  rw [intText_natCast, List.mem_map]
  rintro ⟨c, hc, hzero⟩
  have hdigit := Nat.isDigit_of_mem_toDigits (by decide) (by decide) hc
  have hrange : 48 ≤ c.toNat ∧ c.toNat ≤ 57 := by
    simpa [Char.isDigit, UInt32.le_iff_toNat_le] using hdigit
  have hval := congrArg UInt8.toNat hzero
  rw [UInt8.toNat_ofNat'] at hval
  simp at hval
  omega

theorem replyLength_cut (msg : Bytes) {startPos : Int} (sync : Bool) (hp : 0 ≤ startPos → (intText startPos).length ≤ 10) :
    replyLength (msg.take (blockSize - 100)) startPos + (if sync then 6 else 0) ≤ blockSize := by
  have hlen := List.length_take_le (blockSize - 100) msg
  have hsize := blockSize_eq
  rw [replyLength]
  by_cases h0 : 0 ≤ startPos
  · have hpos := hp h0
    rw [if_pos h0]
    split <;> omega
  · rw [if_neg h0]
    split <;> omega

theorem buildExceptionRec_of_noticed {msg : Bytes} {startPos : Int} {sync : Bool}
    (hp : 0 ≤ startPos → (intText startPos).length ≤ 10) (h : sync = true → FullNoticed msg startPos) (fuel : Nat) :
    buildExceptionRec (fuel + 2) blockSize msg startPos sync = some (reply (sentText msg startPos sync) startPos sync) := by
  rw [buildExceptionRec, sentText]
  by_cases hfits : replyLength msg startPos + (if sync then 6 else 0) ≤ blockSize
  · obtain ⟨hfull, hprep⟩ := exceptionWriter_of_fits hfits
    rw [if_pos hfits]
    simp [hfull, hprep]
  · obtain ⟨hfull, hprep⟩ := exceptionWriter_of_fits (replyLength_cut msg sync hp)
    have hfirst := full_exceptionWriter (not_le.mp hfits) h
    rw [if_neg hfits]
    simp [hfirst, buildExceptionRec, hfull, hprep]

theorem length_reply (text : Bytes) (startPos : Int) (sync : Bool) :
    (reply text startPos sync).length = replyLength text startPos + if sync then 6 else 0 := by
  have hlen := length_fieldsBody text startPos
  cases sync <;> simp [reply, frame, readyForQuery] <;> omega

theorem toBig_inj {n a b : Nat} (ha : a < 256 ^ n) (hb : b < 256 ^ n) (h : toBig n a = toBig n b) : a = b := by
  rw [← ofBig_toBig_of_lt ha, h, ofBig_toBig_of_lt hb]

/-- A reply whose first length reaches to its end has no second message. -/
theorem not_errorReply_of_hidden {msg out : Bytes} {startPos : Int} (hout : out.length ≤ blockSize) :
    ¬ ErrorReply msg startPos true (char "E" :: toBig 4 (4 + out.length) ++ out) := by
  rintro ⟨hfits, text, -, -, heq⟩
  have hlt := blockSize_lt
  have hsize := blockSize_eq
  have hlen := congrArg List.length heq
  rw [if_pos rfl, frame, List.append_assoc, List.cons_append, List.cons_append, List.cons.injEq] at heq
  obtain ⟨hlength, -⟩ := List.append_inj heq.2 (by simp)
  simp [frame, readyForQuery] at hlen
  simp at hfits
  have := toBig_inj (by omega) (by omega) hlength
  omega

theorem errorReply_reply_iff {msg text : Bytes} {startPos : Int} {sync : Bool} (hpre : text <+: msg)
    (hfits : (reply text startPos sync).length ≤ blockSize) :
    ErrorReply msg startPos sync (reply text startPos sync) ↔ 0 ∉ text := by
  constructor
  · rintro ⟨-, text', -, hzero, heq⟩
    have hlen := congrArg List.length heq
    have hlen' := length_reply text' startPos sync
    rw [reply] at hlen'
    rw [length_reply, hlen', replyLength, replyLength] at hlen
    have hframe := List.append_cancel_right heq
    have hbody := (List.append_inj' hframe (by
      have h1 := length_fieldsBody text startPos
      have h2 := length_fieldsBody text' startPos
      rw [replyLength] at h1 h2
      omega)).2
    have htext : text = text' := by
      simpa [fieldsBody, errorFields] using hbody
    rw [htext]
    exact hzero (char "M", text') (by simp [errorFields])
  · intro hzero
    refine ⟨hfits, text, hpre, fun f hf => ?_, rfl⟩
    simp only [errorFields, List.mem_append, List.mem_cons, List.not_mem_nil, or_false] at hf
    obtain (rfl | rfl | rfl) | hf := hf
    · decide
    · decide
    · exact hzero
    · split at hf
      · next h0 =>
        obtain rfl := List.mem_singleton.mp hf
        exact zero_notMem_intText h0
      · cases hf

theorem sentText_prefix (msg : Bytes) (startPos : Int) (sync : Bool) : sentText msg startPos sync <+: msg := by
  rw [sentText]
  generalize (if sync then 6 else 0) = extra
  split
  · exact List.prefix_refl msg
  · exact List.take_prefix _ _

/-- `buildException` ends, and what it reports as prepared is a reply, exactly when the text that
is sent has no zero in it and, before a ReadyForQuery, the end of the buffer is noticed. -/
theorem buildException_reply_iff (msg : Bytes) (startPos : BitVec 32) (sync : Bool) :
    (∃ out, (∀ fuel, buildExceptionRec (fuel + 2) blockSize msg startPos.toInt sync = some out) ∧
      ErrorReply msg startPos.toInt sync out) ↔ Deliverable msg startPos.toInt sync := by
  have hp : 0 ≤ startPos.toInt → (intText startPos.toInt).length ≤ 10 := fun h0 =>
    length_intText h0 (by have := BitVec.toInt_lt (x := startPos); omega)
  have hgood : (sync = true → FullNoticed msg startPos.toInt) →
      (ErrorReply msg startPos.toInt sync (reply (sentText msg startPos.toInt sync) startPos.toInt sync) ↔
        0 ∉ sentText msg startPos.toInt sync) := fun h => by
    refine errorReply_reply_iff ( sentText_prefix msg startPos.toInt sync) ?_
    rw [length_reply, sentText]
    by_cases hfits : replyLength msg startPos.toInt + (if sync then 6 else 0) ≤ blockSize
    · rwa [if_pos hfits]
    · rw [if_neg hfits]
      exact replyLength_cut msg sync hp
  constructor
  · rintro ⟨out, hrun, hreply⟩
    by_cases hnoticed : sync = true → FullNoticed msg startPos.toInt
    · have hout := hrun 0
      rw [buildExceptionRec_of_noticed hp hnoticed, Option.some.injEq] at hout
      subst hout
      exact ⟨(hgood hnoticed).mp hreply, hnoticed⟩
    · obtain ⟨rfl, hhidden⟩ := Classical.not_imp.mp hnoticed
      obtain ⟨hfull, rest, hlen, hprep⟩ := hidden_exceptionWriter hhidden
      have hout := hrun 0
      rw [buildExceptionRec, hfull, hprep] at hout
      cases hout
      exact absurd hreply (not_errorReply_of_hidden hlen)
  · rintro ⟨hzero, hnoticed⟩
    exact ⟨_, buildExceptionRec_of_noticed hp hnoticed, (hgood hnoticed).mpr hzero⟩

theorem no_reply_of_hidden {msg : Bytes} {startPos : Int} (h : ¬ FullNoticed msg startPos) :
    (∀ fuel, buildExceptionRec (fuel + 1) blockSize msg startPos true = some (buildException blockSize msg startPos true)) ∧
      ¬ ErrorReply msg startPos true (buildException blockSize msg startPos true) := by
  obtain ⟨hfull, rest, hlen, hprep⟩ := hidden_exceptionWriter h
  have hout : buildException blockSize msg startPos true = char "E" :: toBig 4 (4 + rest.length) ++ rest := by
    rw [buildException, hfull, hprep]
    rfl
  refine ⟨fun fuel => ?_, ?_⟩
  · rw [buildExceptionRec, hfull, hprep, hout]
    rfl
  · rw [hout]
    exact not_errorReply_of_hidden hlen

/-- A message as long as the buffer, in answer to a Query message. -/
theorem longMessage_no_reply :
    (∀ fuel, buildExceptionRec (fuel + 1) blockSize (List.replicate 524288 97) (-1) true =
        some (buildException blockSize (List.replicate 524288 97) (-1) true)) ∧
      ¬ ErrorReply (List.replicate 524288 97) (-1) true (buildException blockSize (List.replicate 524288 97) (-1) true) := by
  refine no_reply_of_hidden fun h => ?_
  have hsize := blockSize_eq
  have hlen := h.1
  rw [List.length_replicate] at hlen
  omega

end PostgresProtocol

end LevelPgServer
