import LevelPgServer.Server.PostgresProtocol

namespace LevelPgServer

open ByteOrder

/-- The function of the writer that puts a value into a message: one that copies its text, one
that lets `snprintf` print it, one that lets `strftime` print `len` bytes. -/
inductive Printing
  | copied
  | printed
  | time (len : Nat)
  deriving DecidableEq, Repr

/-- A column of a DataRow message, without a text where it is NULL. -/
structure Field where
  printing : Printing
  text : Option Bytes
  deriving DecidableEq, Repr

namespace Field

def write (f : Field) (w : PgDataWriter) : PgDataWriter :=
  match f.text, f.printing with
  | none, _ => w.addNull
  | some t, .copied => w.addString t
  | some t, .printed => w.addValueAsString t
  | some t, .time len => w.addDateTimeAsString t len

/-- The column as the protocol has it: its length and its text. -/
def message (f : Field) : Bytes :=
  match f.text with
  | none => intToBig 4 (-1)
  | some t => toBig 4 t.length ++ t

def need (f : Field) : Nat :=
  match f.text, f.printing with
  | none, _ => 4
  | some t, .copied => 4 + t.length
  | some t, .printed => 4 + t.length + 1
  | some _, .time len => 4 + len + 1

/-- What is written at `pos` when there is room. -/
def written (size pos : Nat) (f : Field) : Bytes :=
  match f.text, f.printing with
  | none, _ => intToBig 4 (-1)
  | some t, .time len => intToBig 4 len ++ if t.length < size - (pos + 4) then t else []
  | some t, _ => intToBig 4 t.length ++ t

def Fits (size : Nat) : Nat → List Field → Prop
  | _, [] => True
  | pos, f :: fs => pos + f.need ≤ size ∧ Fits size (pos + (f.written size pos).length) fs

def writtenAll (size : Nat) : Nat → List Field → Bytes
  | _, [] => []
  | pos, f :: fs => f.written size pos ++ writtenAll size (pos + (f.written size pos).length) fs

instance decidableFits (size pos : Nat) (fs : List Field) : Decidable (Fits size pos fs) := by
  induction fs generalizing pos with
  | nil => exact inferInstanceAs (Decidable True)
  | cons f fs ih => exact @instDecidableAnd _ _ _ (ih _)

/-- A text that `snprintf` prints is not empty. -/
def Printed (f : Field) : Prop := f.printing = .printed → f.text ≠ some []

end Field

/-- The DataRow message of a row; a row without columns has none. -/
def dataRow (fs : List Field) : Bytes :=
  if fs = [] then []
  else PostgresProtocol.char "D" :: toBig 4 (6 + (fs.flatMap Field.message).length) ++ toBig 2 fs.length ++
    fs.flatMap Field.message

namespace PgDataWriter

/-- `w'` is `w` with bytes behind those it had, or full. -/
structure Extends (w w' : PgDataWriter) : Prop where
  size : w'.size = w.size
  lastPrepare : w'.lastPrepare = w.lastPrepare
  data : ∃ bs, w'.data = w.data ++ bs

theorem Extends.refl (w : PgDataWriter) : Extends w w := ⟨rfl, rfl, [], by simp⟩

theorem Extends.trans {w w' w'' : PgDataWriter} (h : Extends w w') (h' : Extends w' w'') : Extends w w'' := by
  obtain ⟨bs, hbs⟩ := h.data
  obtain ⟨bs', hbs'⟩ := h'.data
  exact ⟨h'.size.trans h.size, h'.lastPrepare.trans h.lastPrepare, bs ++ bs', by rw [hbs', hbs, List.append_assoc]⟩

/-- The writer after `bs`, or full where `Room` fails. -/
structure Puts (Room : Prop) (bs : Bytes) (w w' : PgDataWriter) : Prop where
  ext : Extends w w'
  full : w'.full = true ↔ w.full = true ∨ ¬ Room
  data : w.full = false → Room → w'.data = w.data ++ bs

theorem Puts.of_eq {Room Room' : Prop} {bs bs' : Bytes} {w w' : PgDataWriter} (h : Puts Room bs w w')
    (hr : w.full = false → (Room ↔ Room')) (hb : w.full = false → Room' → bs = bs') : Puts Room' bs' w w' := by
  refine ⟨h.ext, ?_, fun hw hr' => ?_⟩
  · rw [h.full]
    cases hw : w.full with
    | true => simp
    | false => rw [hr hw]
  · rw [h.data hw ((hr hw).mpr hr'), hb hw hr']

theorem puts_put (bs : Bytes) (w : PgDataWriter) : Puts (w.data.length + bs.length ≤ w.size) bs w (w.put bs) := by
  rw [put]
  split
  · next hfull => exact ⟨Extends.refl w, by simp [hfull], fun h => by simp [hfull] at h⟩
  · next hfull =>
    split
    · next hroom => exact ⟨⟨rfl, rfl, bs, rfl⟩, by simp [hfull, hroom], fun _ _ => rfl⟩
    · next hroom => exact ⟨⟨rfl, rfl, [], by simp⟩, by simp [hroom], fun _ h => absurd h hroom⟩

theorem Puts.comp {R R' : Prop} {bs bs' : Bytes} {w w' w'' : PgDataWriter} (h : Puts R bs w w') (h' : Puts R' bs' w' w'') :
    Puts (R ∧ R') (bs ++ bs') w w'' := by
  refine ⟨h.ext.trans h'.ext, ?_, fun hw hr => ?_⟩
  · rw [h'.full, h.full]
    tauto
  · have hw' : w'.full = false := by
      rw [← Bool.not_eq_true, h.full]
      simp [hw, hr.1]
    rw [h'.data hw' hr.2, h.data hw hr.1, List.append_assoc]

theorem puts_full (w : PgDataWriter) {Room : Prop} (bs : Bytes) (h : ¬ Room) : Puts Room bs w { w with full := true } :=
  ⟨⟨rfl, rfl, [], by simp⟩, by simp [h], fun _ hr => absurd hr h⟩

theorem puts_self {w : PgDataWriter} (Room : Prop) (bs : Bytes) (h : w.full = true) : Puts Room bs w w :=
  ⟨Extends.refl w, by simp [h], fun hw => by simp [h] at hw⟩

theorem Puts.append {n m : Nat} {bs bs' : Bytes} {w w' w'' : PgDataWriter} (h : Puts (w.data.length + n ≤ w.size) bs w w')
    (h' : Puts (w'.data.length + m ≤ w'.size) bs' w' w'') (hn : bs.length = n) :
    Puts (w.data.length + (n + m) ≤ w.size) (bs ++ bs') w w'' := by
  refine (h.comp h').of_eq (fun hw => ?_) fun _ _ => rfl
  constructor
  · rintro ⟨hr, hr'⟩
    rw [h.data hw hr, h.ext.size, List.length_append, hn] at hr'
    omega
  · intro hr
    have hr1 : w.data.length + n ≤ w.size := by omega
    refine ⟨hr1, ?_⟩
    rw [h.data hw hr1, h.ext.size, List.length_append, hn]
    omega

@[simp] theorem length_intToBig (n : Nat) (v : Int) : (intToBig n v).length = n := by
  rw [intToBig, List.length_reverse, length_intToLittle]

theorem puts_addInt32 (v : Int) (w : PgDataWriter) : Puts (w.data.length + 4 ≤ w.size) (intToBig 4 v) w (w.addInt32 v) := by
  have h := puts_put (intToBig 4 v) w
  rwa [length_intToBig] at h

theorem puts_addString (s : Bytes) (w : PgDataWriter) :
    Puts (w.data.length + (4 + s.length) ≤ w.size) (intToBig 4 s.length ++ s) w (w.addString s) :=
  (puts_addInt32 s.length w).append (puts_put s _) (length_intToBig 4 _)

theorem puts_addValueAsString (s : Bytes) (w : PgDataWriter) (hs : s ≠ []) :
    Puts (w.data.length + (4 + s.length + 1) ≤ w.size) (intToBig 4 s.length ++ s) w (w.addValueAsString s) := by
  have hpos : 0 < s.length := List.length_pos_of_ne_nil hs
  rw [addValueAsString]
  split
  · next hfull => exact puts_self _ _ hfull
  · next hfull =>
    split
    · next hroom => exact puts_full _ _ (by omega)
    · next hroom =>
      split
      · next hfit => exact (puts_addString s w).of_eq (fun _ => by omega) fun _ _ => rfl
      · next hfit => exact puts_full _ _ (by omega)

theorem puts_addDateTimeAsString (s : Bytes) (len : Nat) (w : PgDataWriter) :
    Puts (w.data.length + (4 + len + 1) ≤ w.size)
      (intToBig 4 len ++ if s.length < w.size - (w.data.length + 4) then s else []) w (w.addDateTimeAsString s len) := by
  have hlen := puts_addInt32 len w
  have hrest : Puts ((w.addInt32 len).data.length + (len + 1) ≤ (w.addInt32 len).size)
      (if s.length < (w.addInt32 len).size - (w.addInt32 len).data.length then s else []) (w.addInt32 len)
      (w.addDateTimeAsString s len) := by
    rw [addDateTimeAsString]
    by_cases hfull : (w.addInt32 len).full = true
    · rw [if_pos hfull]
      exact puts_self _ _ hfull
    · rw [if_neg hfull]
      by_cases hroom : (w.addInt32 len).size < (w.addInt32 len).data.length + (len + 1)
      · rw [if_pos hroom]
        exact puts_full _ _ (by omega)
      · rw [if_neg hroom]
        by_cases htext : s.length < (w.addInt32 len).size - (w.addInt32 len).data.length
        · rw [if_pos htext, if_pos htext]
          exact ⟨⟨rfl, rfl, s, rfl⟩, ⟨.inl, fun h => h.resolve_right fun hn => hn (by omega)⟩, fun _ _ => rfl⟩
        · rw [if_neg htext, if_neg htext]
          exact ⟨Extends.refl _, ⟨.inl, fun h => h.resolve_right fun hn => hn (by omega)⟩, fun _ _ => by simp⟩
  refine (hlen.append hrest (length_intToBig 4 _)).of_eq (fun _ => by omega) fun hw hr => ?_
  rw [hlen.data hw (by omega), hlen.ext.size, List.length_append, length_intToBig]

end PgDataWriter

namespace Field

open PgDataWriter

theorem puts_write {f : Field} (hf : f.Printed) (w : PgDataWriter) :
    Puts (w.data.length + f.need ≤ w.size) (f.written w.size w.data.length) w (f.write w) := by
  obtain ⟨printing, text⟩ := f
  cases text with
  | none => exact puts_addInt32 (-1) w
  | some t =>
    cases printing with
    | copied => exact puts_addString t w
    | printed =>
      have ht : t ≠ [] := by
        rintro rfl
        exact hf rfl rfl
      exact puts_addValueAsString t w ht
    | time len => exact puts_addDateTimeAsString t len w

theorem puts_writeAll {fs : List Field} (hfs : ∀ f ∈ fs, f.Printed) (w : PgDataWriter) :
    Puts (Fits w.size w.data.length fs) (writtenAll w.size w.data.length fs) w (fs.foldl (fun w f => f.write w) w) := by
  induction fs generalizing w with
  | nil => exact ⟨Extends.refl w, by simp [Fits], fun _ _ => by simp [writtenAll]⟩
  | cons f fs ih =>
    have hf := puts_write (hfs f List.mem_cons_self) w
    have hrest := ih (fun g hg => hfs g (List.mem_cons_of_mem f hg)) (f.write w)
    rw [List.foldl_cons]
    refine (hf.comp hrest).of_eq (fun hw => ?_) fun hw hr => ?_
    · rw [Fits]
      refine and_congr_right fun hr => ?_
      rw [hf.ext.size, hf.data hw hr, List.length_append]
    · rw [writtenAll, hf.ext.size, hf.data hw hr.1, List.length_append]

end Field

namespace PgDataWriter

structure Framed (w : PgDataWriter) : Prop where
  full : w.full = false
  lastPrepare : w.lastPrepare = w.data.length

theorem framed_new (size : Nat) : Framed { size := size } := ⟨rfl, rfl⟩

def writeRow (fs : List Field) (w : PgDataWriter) : PgDataWriter :=
  (fs.foldl (fun w f => f.write w) ((w.begin (PostgresProtocol.char "D")).addInt16 fs.length)).end

/-- There is room for the row behind `pos` bytes. -/
def RowFits (size pos : Nat) (fs : List Field) : Prop := pos + 7 ≤ size ∧ Field.Fits size (pos + 7) fs

instance (size pos : Nat) (fs : List Field) : Decidable (RowFits size pos fs) := inferInstanceAs (Decidable (_ ∧ _))

def rowBytes (size pos : Nat) (fs : List Field) : Bytes :=
  let body := Field.writtenAll size (pos + 7) fs
  PostgresProtocol.char "D" :: toBig 4 (6 + body.length) ++ intToBig 2 fs.length ++ body

theorem puts_row {fs : List Field} (hfs : ∀ f ∈ fs, f.Printed) {w : PgDataWriter} (hw : w.full = false) :
    Puts (RowFits w.size w.data.length fs)
      (PostgresProtocol.char "D" :: intToBig 4 0 ++ intToBig 2 fs.length ++ Field.writtenAll w.size (w.data.length + 7) fs) w
      (fs.foldl (fun w f => f.write w) ((w.begin (PostgresProtocol.char "D")).addInt16 fs.length)) := by
  have hbegin : Puts (w.data.length + (1 + 4) ≤ w.size) ([PostgresProtocol.char "D"] ++ intToBig 4 0) w
      (w.begin (PostgresProtocol.char "D")) := by
    have hput := puts_put [PostgresProtocol.char "D"] w
    rw [«begin», ← hw]
    exact hput.append (puts_addInt32 0 _) rfl
  have hnum : Puts (w.data.length + (1 + 4 + 2) ≤ w.size)
      ([PostgresProtocol.char "D"] ++ intToBig 4 0 ++ intToBig 2 fs.length) w
      ((w.begin (PostgresProtocol.char "D")).addInt16 fs.length) := by
    have hput := puts_put (intToBig 2 fs.length) (w.begin (PostgresProtocol.char "D"))
    rw [length_intToBig] at hput
    exact hbegin.append hput (by simp)
  have hall := Field.puts_writeAll hfs ((w.begin (PostgresProtocol.char "D")).addInt16 fs.length)
  refine (hnum.comp hall).of_eq (fun _ => ?_) fun _ hr => ?_
  · rw [RowFits]
    refine and_congr_right fun hr => ?_
    rw [hnum.ext.size, hnum.data hw hr, List.length_append]
    simp
  · rw [hnum.ext.size, hnum.data hw hr.1, List.length_append]
    simp

theorem patch_frame (old body : Bytes) (c : UInt8) (n : Bytes) :
    (old ++ (c :: intToBig 4 0 ++ n ++ body)).take (old.length + 1) ++
      toBig 4 ((old ++ (c :: intToBig 4 0 ++ n ++ body)).length - old.length - 1) ++
        (old ++ (c :: intToBig 4 0 ++ n ++ body)).drop (old.length + 5) =
      old ++ (c :: toBig 4 (4 + n.length + body.length) ++ n ++ body) := by
  have htake : (old ++ (c :: intToBig 4 0 ++ n ++ body)).take (old.length + 1) = old ++ [c] := by
    rw [List.take_append, List.take_of_length_le (by omega)]
    simp
  have hdrop : (old ++ (c :: intToBig 4 0 ++ n ++ body)).drop (old.length + 5) = n ++ body := by
    have hsplit : old ++ (c :: intToBig 4 0 ++ n ++ body) = old ++ (c :: intToBig 4 0) ++ (n ++ body) := by simp
    rw [hsplit, List.drop_left' (by simp)]
  have hlen : (old ++ (c :: intToBig 4 0 ++ n ++ body)).length - old.length - 1 = 4 + n.length + body.length := by
    simp
    omega
  rw [htake, hdrop, hlen]
  simp

theorem writeRow_of_fits {fs : List Field} (hfs : ∀ f ∈ fs, f.Printed) {w : PgDataWriter} (hw : w.Framed)
    (hfit : RowFits w.size w.data.length fs) :
    (writeRow fs w).Framed ∧ (writeRow fs w).size = w.size ∧
      (writeRow fs w).data = w.data ++ rowBytes w.size w.data.length fs := by
  have h := puts_row hfs hw.full
  have hfull : (fs.foldl (fun w f => f.write w) ((w.begin (PostgresProtocol.char "D")).addInt16 fs.length)).full = false := by
    rw [← Bool.not_eq_true, h.full]
    simp [hw.full, hfit]
  have hdata := h.data hw.full hfit
  have hpatch := patch_frame w.data (Field.writtenAll w.size (w.data.length + 7) fs) (PostgresProtocol.char "D")
    (intToBig 2 fs.length)
  rw [writeRow, «end», if_neg (by simp [hfull])]
  have hd : (fs.foldl (fun w f => f.write w) ((w.begin (PostgresProtocol.char "D")).addInt16 fs.length)).lastPrepare =
      w.data.length := h.ext.lastPrepare.trans hw.lastPrepare
  refine ⟨⟨hfull, ?_⟩, h.ext.size, ?_⟩
  · simp only [hd, hdata, hpatch]
    simp
  · simp only [hd, hdata, hpatch, rowBytes]
    simp

theorem writeRow_of_not_fits {fs : List Field} (hfs : ∀ f ∈ fs, f.Printed) {w : PgDataWriter} (hw : w.Framed)
    (hfit : ¬ RowFits w.size w.data.length fs) : (writeRow fs w).full = true ∧ (writeRow fs w).prepared = w.data := by
  have h := puts_row hfs hw.full
  have hfull : (fs.foldl (fun w f => f.write w) ((w.begin (PostgresProtocol.char "D")).addInt16 fs.length)).full = true :=
    h.full.mpr (.inr hfit)
  rw [writeRow, «end», if_pos hfull]
  obtain ⟨bs, hbs⟩ := h.ext.data
  refine ⟨hfull, ?_⟩
  rw [prepared, h.ext.lastPrepare, hbs, hw.lastPrepare, List.take_left]

end PgDataWriter

namespace Field

open PgDataWriter

/-- `strftime` prints the number of bytes the writer expects. -/
def WellTimed (f : Field) : Prop := ∀ len t, f.printing = .time len → f.text = some t → t.length = len

/-- The byte that the last column needs behind its text. -/
def slack (fs : List Field) : Nat :=
  match fs.getLast? with
  | some ⟨.printed, some _⟩ | some ⟨.time _, some _⟩ => 1
  | _ => 0

theorem toLittle_mod (n v : Nat) : toLittle n (v % 256 ^ n) = toLittle n v := by
  induction n generalizing v with
  | zero => rfl
  | succ n ih =>
    have hlow : UInt8.ofNat (v % 256 ^ (n + 1)) = UInt8.ofNat v := by
      apply UInt8.toNat_inj.mp
      rw [UInt8.toNat_ofNat', UInt8.toNat_ofNat', pow_succ', Nat.mod_mul_right_mod]
    have hhigh : v % 256 ^ (n + 1) / 256 = v / 256 % 256 ^ n := by
      rw [pow_succ', Nat.mod_mul_right_div_self]
    rw [toLittle, toLittle, hlow, hhigh, ih]

theorem intToBig_natCast (n v : Nat) : intToBig n v = toBig n v := by
  have htoNat : (BitVec.ofInt (8 * n) v).toNat = v % 256 ^ n := by
    rw [BitVec.ofInt_natCast, BitVec.toNat_ofNat, pow_mul, show (2 : Nat) ^ 8 = 256 from rfl]
  rw [intToBig, intToLittle, htoNat, toLittle_mod, toBig]

theorem written_eq_message {f : Field} (ht : f.WellTimed) {size pos : Nat} (hr : pos + f.need ≤ size) :
    f.written size pos = f.message := by
  obtain ⟨printing, text⟩ := f
  cases text with
  | none => rfl
  | some t =>
    cases printing with
    | copied | printed => simp only [written, message, intToBig_natCast]
    | time len =>
      obtain rfl := ht len t rfl rfl
      have hroom : t.length < size - (pos + 4) := by
        simp only [need] at hr
        omega
      simp only [written, message, if_pos hroom, intToBig_natCast]

theorem four_le_message (f : Field) : 4 ≤ f.message.length := by
  obtain ⟨printing, text⟩ := f
  cases text <;> simp [message]

theorem need_le {f : Field} (ht : f.WellTimed) : f.message.length ≤ f.need ∧ f.need ≤ f.message.length + 1 := by
  obtain ⟨printing, text⟩ := f
  cases text with
  | none => simp [need, message]
  | some t =>
    cases printing with
    | copied => simp [need, message]
    | printed => simp [need, message]
    | time len =>
      have := ht len t rfl rfl
      simp [need, message, this]

theorem need_last {f : Field} (ht : f.WellTimed) : f.need = f.message.length + slack [f] := by
  obtain ⟨printing, text⟩ := f
  cases text with
  | none => cases printing <;> simp [need, message, slack]
  | some t =>
    cases printing with
    | copied => simp [need, message, slack]
    | printed => simp [need, message, slack]
    | time len =>
      have := ht len t rfl rfl
      simp [need, message, slack, this]

theorem writtenAll_eq {fs : List Field} (ht : ∀ f ∈ fs, f.WellTimed) {size pos : Nat} (hr : Fits size pos fs) :
    writtenAll size pos fs = fs.flatMap message := by
  induction fs generalizing pos with
  | nil => rfl
  | cons f fs ih =>
    rw [writtenAll, List.flatMap_cons, ih (fun g hg => ht g (List.mem_cons_of_mem f hg)) hr.2,
      written_eq_message (ht f List.mem_cons_self) hr.1]

theorem fits_iff {fs : List Field} (ht : ∀ f ∈ fs, f.WellTimed) {size pos : Nat} (hpos : pos ≤ size) :
    Fits size pos fs ↔ pos + (fs.flatMap message).length + slack fs ≤ size := by
  induction fs generalizing pos with
  | nil => simp [Fits, slack, hpos]
  | cons f fs ih =>
    have hf := ht f List.mem_cons_self
    have hneed := need_le hf
    have hrest : ∀ g ∈ fs, g.WellTimed := fun g hg => ht g (List.mem_cons_of_mem f hg)
    rw [Fits, List.flatMap_cons, List.length_append]
    cases fs with
    | nil =>
      have := need_last hf
      simp only [Fits, List.flatMap_nil, List.length_nil, and_true]
      omega
    | cons g gs =>
      have hslack : slack (f :: g :: gs) = slack (g :: gs) := by rw [slack, slack, List.getLast?_cons_cons]
      have hg := four_le_message g
      rw [hslack]
      constructor
      · rintro ⟨hr, hfit⟩
        rw [written_eq_message hf hr] at hfit
        have := (ih hrest (by omega)).mp hfit
        omega
      · intro hroom
        have hlen : ((g :: gs).flatMap message).length = g.message.length + (gs.flatMap message).length := by
          rw [List.flatMap_cons, List.length_append]
        have hr : pos + f.need ≤ size := by omega
        refine ⟨hr, ?_⟩
        rw [written_eq_message hf hr]
        exact (ih hrest (by omega)).mpr (by omega)

/-- Where the columns written are those of the message, the times are well formed. -/
theorem wellTimed_of_prefix {fs : List Field} {size pos : Nat} {x y : Bytes} (hsize : size < 2 ^ 32)
    (hfit : Fits size pos fs) (hlen : (fs.flatMap message).length < 2 ^ 32)
    (h : writtenAll size pos fs ++ x = fs.flatMap message ++ y) : ∀ f ∈ fs, f.WellTimed := by
  induction fs generalizing pos with
  | nil => simp
  | cons f fs ih =>
    rw [List.flatMap_cons, List.length_append] at hlen
    rw [writtenAll, List.flatMap_cons, List.append_assoc, List.append_assoc] at h
    have hf : f.WellTimed := by
      obtain ⟨printing, text⟩ := f
      intro len t hp ht
      obtain rfl : printing = .time len := hp
      obtain rfl : text = some t := ht
      have hr : pos + (4 + len + 1) ≤ size := hfit.1
      have ht : t.length < 256 ^ 4 := by
        simp [message] at hlen
        omega
      simp only [written, message, intToBig_natCast, List.append_assoc] at h
      have hbig : toBig 4 len = toBig 4 t.length := (List.append_inj h (by simp)).1
      have := congrArg ofBig hbig
      rwa [ofBig_toBig_of_lt (by omega), ofBig_toBig_of_lt ht, eq_comm] at this
    have hw := written_eq_message hf hfit.1
    rw [hw] at h
    intro g hg
    rcases List.mem_cons.mp hg with rfl | hg
    · exact hf
    · exact ih hfit.2 (by omega) (by rw [hw]; exact List.append_cancel_left h) g hg

end Field

namespace PgDataWriter

theorem rowBytes_eq {fs : List Field} (hne : fs ≠ []) (ht : ∀ f ∈ fs, f.WellTimed) {size pos : Nat}
    (hfit : RowFits size pos fs) : rowBytes size pos fs = dataRow fs := by
  rw [rowBytes, Field.writtenAll_eq ht hfit.2, dataRow, if_neg hne, Field.intToBig_natCast]

theorem length_dataRow {fs : List Field} (hne : fs ≠ []) : (dataRow fs).length = 7 + (fs.flatMap Field.message).length := by
  rw [dataRow, if_neg hne]
  simp
  omega

/-- A row fits an empty buffer if its message does, with the byte behind the last column. -/
theorem rowFits_iff {fs : List Field} (hne : fs ≠ []) (ht : ∀ f ∈ fs, f.WellTimed) {size pos : Nat} :
    RowFits size pos fs ↔ pos + (dataRow fs).length + Field.slack fs ≤ size := by
  rw [RowFits, length_dataRow hne]
  constructor
  · rintro ⟨hpos, hfit⟩
    have := (Field.fits_iff ht hpos).mp hfit
    omega
  · intro h
    exact ⟨by omega, (Field.fits_iff ht (by omega)).mpr (by omega)⟩

theorem rowBytes_prefix {fs : List Field} (hne : fs ≠ []) {size pos : Nat} {x y : Bytes} (hsize : size < 2 ^ 32)
    (hlen : (dataRow fs).length ≤ size) (hfit : RowFits size pos fs) (h : rowBytes size pos fs ++ x = dataRow fs ++ y) :
    ∀ f ∈ fs, f.WellTimed := by
  rw [length_dataRow hne] at hlen
  rw [rowBytes, dataRow, if_neg hne] at h
  simp only [List.cons_append, List.append_assoc, List.cons.injEq, true_and] at h
  have htail := (List.append_inj h (by simp)).2
  rw [Field.intToBig_natCast] at htail
  exact Field.wellTimed_of_prefix hsize hfit.2 (by omega) (List.append_cancel_left htail)

end PgDataWriter

namespace PostgresProtocol

variable (conv : Conversions) (fmt : Formats)

def printing : DBDataType → Printing
  | .bytes | .bool | .string => .copied
  | .int16 | .int32 | .int64 | .float | .double => .printed
  | .date => .time 10
  | .datetime => .time 19

def columnText (type : DBDataType) (result : ExecutionResult) : Fallible (Option Bytes) :=
  if result.isNull then .ok none
  else
    match type with
    | .bytes => do
      let s ← result.getString conv
      return some (PgDataWriter.bytesText s)
    | .bool => do
      let v ← result.getInt conv
      return some (if v ≠ 0 then bytes "true" else bytes "false")
    | .int16 | .int32 | .int64 => do
      let v ← result.getInt conv
      return some (intText v)
    | .string => do
      let s ← result.getString conv
      return some s
    | .float | .double => do
      let d ← result.getDouble conv
      return some (fmt.double d)
    | .date => do
      let v ← result.getInt conv
      return fmt.date v
    | .datetime => do
      let v ← result.getInt conv
      return fmt.dateTime v

def field (c : Fallible (DBDataType × ExecutionResult)) : Fallible Field := do
  let (type, result) ← c
  let text ← columnText conv fmt type result
  return ⟨printing type, text⟩

def rowFields (row : List (Fallible (DBDataType × ExecutionResult))) : Fallible (List Field) :=
  row.mapM (field conv fmt)

theorem length_bytesText (s : Bytes) : (PgDataWriter.bytesText s).length = 2 + s.length * 2 := by
  have hpairs : ∀ s : Bytes, (s.flatMap fun (c : UInt8) => [PgDataWriter.digit (c >>> 4), PgDataWriter.digit (c &&& 15)]).length
      = s.length * 2 := by
    intro s
    induction s with
    | nil => rfl
    | cons c s ih =>
      simp only [List.flatMap_cons, List.length_append, ih, List.length_cons, List.length_nil]
      omega
  rw [PgDataWriter.bytesText, List.length_append, hpairs]
  rfl

theorem addColumn_eq (type : DBDataType) (result : ExecutionResult) (w : PgDataWriter) :
    addColumn conv fmt type result w =
      (columnText conv fmt type result).map (fun t => (⟨printing type, t⟩ : Field).write w) := by
  rw [addColumn, columnText.eq_def]
  cases hnull : result.isNull with
  | true => rfl
  | false =>
    simp only [Bool.false_eq_true, if_false]
    cases type with
    | bytes =>
      cases h : result.getString conv with
      | error e => simp [typeHandler, h, Except.map, bind, Except.bind]
      | ok s => simp [typeHandler, h, Except.map, bind, Except.bind, pure, Except.pure, Field.write, printing,
          PgDataWriter.addBytesString, PgDataWriter.addString, length_bytesText]
    | string => cases h : result.getString conv <;> simp [typeHandler, h, Except.map, bind, Except.bind, pure, Except.pure,
        Field.write, printing]
    | bool | int16 | int32 | int64 =>
      cases h : result.getInt conv <;> simp [typeHandler, h, Except.map, bind, Except.bind, pure, Except.pure,
        Field.write, printing]
    | float | double =>
      cases h : result.getDouble conv <;> simp [typeHandler, h, Except.map, bind, Except.bind, pure, Except.pure,
        Field.write, printing]
    | date =>
      cases h : result.getInt conv with
      | error e => simp [typeHandler, h, Except.map, bind, Except.bind]
      | ok v => cases ht : fmt.date v <;> simp [typeHandler, h, ht, Except.map, bind, Except.bind, pure, Except.pure,
          Field.write, printing, addTime]
    | datetime =>
      cases h : result.getInt conv with
      | error e => simp [typeHandler, h, Except.map, bind, Except.bind]
      | ok v => cases ht : fmt.dateTime v <;> simp [typeHandler, h, ht, Except.map, bind, Except.bind, pure, Except.pure,
          Field.write, printing, addTime]

theorem addColumns_eq (row : List (Fallible (DBDataType × ExecutionResult))) (w : PgDataWriter) :
    addColumns conv fmt row w = (rowFields conv fmt row).map (fun fs => fs.foldl (fun w f => f.write w) w) := by
  induction row generalizing w with
  | nil => rfl
  | cons c row ih =>
    rw [addColumns, rowFields, List.mapM_cons]
    cases c with
    | error e => rfl
    | ok c =>
      obtain ⟨type, result⟩ := c
      simp only [field, bind, Except.bind, addColumn_eq]
      cases columnText conv fmt type result with
      | error e => rfl
      | ok t =>
        simp only [Except.map, ih, pure, Except.pure]
        rw [rowFields]
        cases List.mapM (field conv fmt) row <;> rfl

theorem length_rowFields {row : List (Fallible (DBDataType × ExecutionResult))} {fs : List Field}
    (h : rowFields conv fmt row = .ok fs) : fs.length = row.length := by
  induction row generalizing fs with
  | nil => cases h; rfl
  | cons c row ih =>
    rw [rowFields, List.mapM_cons] at h
    cases hc : field conv fmt c with
    | error e => simp [hc, bind, Except.bind] at h
    | ok f =>
      cases hr : List.mapM (field conv fmt) row with
      | error e => simp [hc, hr, bind, Except.bind] at h
      | ok gs =>
        simp only [hc, hr, bind, Except.bind, pure, Except.pure] at h
        cases h
        rw [List.length_cons, List.length_cons, ih hr]

theorem intText_ne_nil (v : Int) : intText v ≠ [] := by
  have hlist : (toString v).toList ≠ [] := by
    cases v with
    | ofNat n =>
      rw [show (toString (Int.ofNat n)) = n.repr from rfl, Nat.toList_repr]
      exact Nat.toDigits_ne_nil
    | negSucc n =>
      rw [show (toString (Int.negSucc n)) = "-" ++ (n + 1).repr from rfl, String.toList_append]
      simp
  rw [intText, bytes]
  simpa using hlist

theorem field_printed {c : Fallible (DBDataType × ExecutionResult)} {f : Field} (h : field conv fmt c = .ok f) :
    f.Printed := by
  intro hprinted htext
  cases c with
  | error e => simp [field, bind, Except.bind] at h
  | ok c =>
    obtain ⟨type, result⟩ := c
    cases ht : columnText conv fmt type result with
    | error e => simp [field, ht, bind, Except.bind] at h
    | ok t =>
      simp only [field, ht, bind, Except.bind, pure, Except.pure] at h
      cases h
      obtain rfl : t = some [] := htext
      rw [columnText.eq_def] at ht
      split at ht
      · simp at ht
      · cases type with
        | int16 | int32 | int64 =>
          cases hv : result.getInt conv with
          | error e => simp [hv, bind, Except.bind] at ht
          | ok v =>
            simp only [hv, bind, Except.bind, pure, Except.pure, Except.ok.injEq, Option.some.injEq] at ht
            exact intText_ne_nil v ht
        | float | double =>
          cases hd : result.getDouble conv with
          | error e => simp [hd, bind, Except.bind] at ht
          | ok d =>
            simp only [hd, bind, Except.bind, pure, Except.pure, Except.ok.injEq, Option.some.injEq] at ht
            exact fmt.double_ne_nil d ht
        | _ => simp [printing] at hprinted

theorem printed_of_rowFields {row : List (Fallible (DBDataType × ExecutionResult))}
    {fs : List Field} (h : rowFields conv fmt row = .ok fs) : ∀ f ∈ fs, f.Printed := by
  induction row generalizing fs with
  | nil =>
    cases h
    simp
  | cons c row ih =>
    rw [rowFields, List.mapM_cons] at h
    cases hc : field conv fmt c with
    | error e => simp [hc, bind, Except.bind] at h
    | ok f =>
      cases hr : List.mapM (field conv fmt) row with
      | error e => simp [hc, hr, bind, Except.bind] at h
      | ok gs =>
        simp only [hc, hr, bind, Except.bind, pure, Except.pure] at h
        cases h
        intro g hg
        obtain rfl | hg := List.mem_cons.mp hg
        · exact field_printed conv fmt hc
        · exact ih hr g hg

theorem buildData_eq {row : List (Fallible (DBDataType × ExecutionResult))} (w : PgDataWriter) :
    buildData conv fmt row w = (rowFields conv fmt row).map (fun fs => PgDataWriter.writeRow fs w) := by
  rw [buildData, addColumns_eq]
  cases h : rowFields conv fmt row with
  | error e => rfl
  | ok fs =>
    simp only [Except.map, bind, Except.bind, pure, Except.pure, PgDataWriter.writeRow, length_rowFields conv fmt h]

end PostgresProtocol

end LevelPgServer
