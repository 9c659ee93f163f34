import LevelPgServer.Execution.ReadFilePlan

namespace LevelPgServer

namespace ReadFilePlan

/-- The tokens `next` hands to `setToken` for a line, one for each column (as in `setTokens`). -/
def handed (plan : ReadFilePlan) (line : Bytes) : List Bytes :=
  (tokens plan.separator plan.columns.length .outOfQuote [] line).takeD plan.columns.length []

theorem readSeparator_ne_quote {separator : Bytes} {c : UInt8} (h : readSeparator separator = .ok c) : c ≠ quote := by
  unfold readSeparator at h
  split at h
  · cases h
    decide
  · split at h
    · cases h
    · next hc =>
      cases h
      exact hc
  · cases h
  · cases h

/-- A field of a line of RFC 4180: only a quoted one has the separator or a quote in it. -/
structure CsvField (separator : UInt8) where
  text : Bytes
  quoted : Bool
  oneLine : 10 ∉ text
  plain : quoted = false → separator ∉ text ∧ quote ∉ text

def doubled (s : Bytes) : Bytes := s.flatMap fun c => if c = quote then [quote, quote] else [c]

variable {separator : UInt8}

def CsvField.written (f : CsvField separator) : Bytes :=
  if f.quoted then quote :: (doubled f.text ++ [quote]) else f.text

def csvLine : List (CsvField separator) → Bytes
  | [] => []
  | [f] => f.written
  | f :: g :: fs => f.written ++ separator :: csvLine (g :: fs)

/-- The quotes of a text stand at its ends, around at least one other character. -/
def QuotesOutside (s : Bytes) : Prop :=
  ∃ k u m, u ≠ [] ∧ quote ∉ u ∧ s = List.replicate k quote ++ (u ++ List.replicate m quote)

/-- What the machine keeps of a text between quotes, in the state `BeginQuote` or in `InQuote`. -/
def kept (beginQuote : Bool) : Bytes → Bytes
  | [] => if beginQuote then [quote] else []
  | c :: s =>
    if c = quote then
      if beginQuote then quote :: kept true s else kept true s
    else c :: kept false s

def CsvField.read (f : CsvField separator) : Bytes := if f.quoted then kept true f.text else f.text

theorem doubled_cons (c : UInt8) (s : Bytes) :
    doubled (c :: s) = (if c = quote then [quote, quote] else [c]) ++ doubled s := rfl

variable {room : Nat}

theorem tokens_quote (hroom : room ≠ 0) (token line : Bytes) :
    tokens separator room .outOfQuote token (quote :: line) = tokens separator room .beginQuote token line := by
  rw [tokens, if_neg hroom]
  exact if_pos rfl

theorem tokens_doubled (hroom : room ≠ 0) (s line : Bytes) : ∀ (beginQuote : Bool) (token : Bytes),
    tokens separator room (if beginQuote then .beginQuote else .inQuote) token (doubled s ++ quote :: line) =
      tokens separator room .outOfQuote (token ++ kept beginQuote s) line := by
  induction s with
  | nil =>
    intro beginQuote token
    cases beginQuote with
    | false => simp [doubled, kept, tokens, hroom]
    | true => simp [doubled, kept, tokens, hroom]
  | cons c s ih =>
    intro beginQuote token
    rw [doubled_cons]
    by_cases hc : c = quote
    · cases beginQuote with
      | false =>
        have hrest := ih true token
        simp only [if_true] at hrest
        simp [hc, kept, tokens, hroom, hrest]
      | true =>
        have hrest := ih true (token ++ [quote])
        simp only [if_true] at hrest
        simp [hc, kept, tokens, hroom, hrest]
    · have hrest := ih false (token ++ [c])
      simp only [Bool.false_eq_true, if_false] at hrest
      cases beginQuote with
      | false => simp [hc, kept, tokens, hroom, hrest]
      | true => simp [hc, kept, tokens, hroom, hrest]

theorem tokens_plain (hroom : room ≠ 0) (line : Bytes) {s : Bytes} (hsep : separator ∉ s) (hquote : quote ∉ s)
    (token : Bytes) : tokens separator room .outOfQuote token (s ++ line) =
      tokens separator room .outOfQuote (token ++ s) line := by
  induction s generalizing token with
  | nil => simp
  | cons c s ih =>
    rw [List.mem_cons, not_or] at hsep hquote
    rw [List.cons_append, tokens, if_neg hroom]
    simp only [Ne.symm hquote.1, Ne.symm hsep.1, if_false]
    rw [ih hsep.2 hquote.2]
    simp

theorem tokens_written (hroom : room ≠ 0) (f : CsvField separator) (line : Bytes) :
    tokens separator room .outOfQuote [] (f.written ++ line) = tokens separator room .outOfQuote f.read line := by
  unfold CsvField.written CsvField.read
  cases hq : f.quoted with
  | false =>
    obtain ⟨hsep, hquote⟩ := f.plain hq
    exact tokens_plain hroom line hsep hquote []
  | true =>
    simp only [if_true, List.cons_append, List.append_assoc, List.nil_append]
    rw [tokens_quote hroom]
    exact tokens_doubled hroom f.text line true []

theorem tokens_separator (hroom : room ≠ 0) (hsep : separator ≠ quote) (token line : Bytes) :
    tokens separator room .outOfQuote token (separator :: line) =
      token :: tokens separator (room - 1) .outOfQuote [] line := by
  rw [tokens, if_neg hroom]
  simp [hsep]

theorem tokens_csvLine (hsep : separator ≠ quote) (fs : List (CsvField separator)) (n : Nat) :
    (tokens separator n .outOfQuote [] (csvLine fs)).takeD n [] = (fs.map CsvField.read).takeD n [] := by
  induction fs using csvLine.induct generalizing n with
  | case1 =>
    cases n with
    | zero => rfl
    | succ n => simp [csvLine, tokens, List.takeD_succ]
  | case2 f =>
    cases n with
    | zero => rfl
    | succ n =>
      have hwritten := tokens_written (Nat.succ_ne_zero n) f []
      rw [List.append_nil] at hwritten
      rw [csvLine, hwritten, tokens]
      rfl
  | case3 f g fs ih =>
    cases n with
    | zero => rfl
    | succ n =>
      rw [csvLine, tokens_written (Nat.succ_ne_zero n), tokens_separator (Nat.succ_ne_zero n) hsep]
      have hrest := congrArg (f.read :: ·) (ih n)
      exact hrest

theorem kept_cons_quote {s : Bytes} : kept true s = quote :: s ↔ ∃ m, s = List.replicate m quote := by
  induction s with
  | nil => exact iff_of_true rfl ⟨0, rfl⟩
  | cons c s ih =>
    by_cases hc : c = quote
    · subst hc
      simp only [kept, if_true, List.cons.injEq, true_and]
      rw [ih]
      constructor
      · rintro ⟨m, rfl⟩
        exact ⟨m + 1, rfl⟩
      · rintro ⟨m, hm⟩
        cases m with
        | zero => cases hm
        | succ m =>
          rw [List.replicate_succ, List.cons.injEq] at hm
          exact ⟨m, hm.2⟩
    · refine iff_of_false (fun h => ?_) fun ⟨m, hm⟩ => ?_
      · rw [kept, if_neg hc, List.cons.injEq] at h
        exact hc h.1
      · exact hc (List.eq_of_mem_replicate (hm ▸ List.mem_cons_self))

theorem kept_inQuote_iff {s : Bytes} :
    kept false s = s ↔ ∃ u m, quote ∉ u ∧ s = u ++ List.replicate m quote := by
  induction s with
  | nil => exact iff_of_true rfl ⟨[], 0, by simp, rfl⟩
  | cons c s ih =>
    by_cases hc : c = quote
    · subst hc
      rw [kept, if_pos rfl, if_neg Bool.false_ne_true, kept_cons_quote]
      constructor
      · rintro ⟨m, rfl⟩
        exact ⟨[], m + 1, by simp, rfl⟩
      · rintro ⟨u, m, hu, h⟩
        cases u with
        | nil =>
          cases m with
          | zero => cases h
          | succ m =>
            rw [List.nil_append, List.replicate_succ, List.cons.injEq] at h
            exact ⟨m, h.2⟩
        | cons d u =>
          rw [List.cons_append, List.cons.injEq] at h
          exact absurd (h.1 ▸ List.mem_cons_self) hu
    · rw [kept, if_neg hc, List.cons.injEq, ih]
      constructor
      · rintro ⟨-, u, m, hu, rfl⟩
        exact ⟨c :: u, m, by simp [hu, Ne.symm hc], rfl⟩
      · rintro ⟨u, m, hu, h⟩
        cases u with
        | nil => exact absurd (List.eq_of_mem_replicate (h ▸ List.mem_cons_self)) hc
        | cons d u =>
          rw [List.cons_append, List.cons.injEq] at h
          rw [List.mem_cons, not_or] at hu
          exact ⟨rfl, u, m, hu.2, h.2⟩

theorem quotesOutside_cons_quote {s : Bytes} : QuotesOutside (quote :: s) ↔ QuotesOutside s := by
  constructor
  · rintro ⟨k, u, m, hne, hu, h⟩
    cases k with
    | zero =>
      obtain ⟨d, u, rfl⟩ := List.exists_cons_of_ne_nil hne
      rw [List.replicate_zero, List.nil_append, List.cons_append, List.cons.injEq] at h
      exact absurd (h.1 ▸ List.mem_cons_self) hu
    | succ k =>
      rw [List.replicate_succ, List.cons_append, List.cons.injEq] at h
      exact ⟨k, u, m, hne, hu, h.2⟩
  · rintro ⟨k, u, m, hne, hu, rfl⟩
    exact ⟨k + 1, u, m, hne, hu, rfl⟩

theorem quotesOutside_cons {c : UInt8} {s : Bytes} (hc : c ≠ quote) :
    QuotesOutside (c :: s) ↔ ∃ u m, quote ∉ u ∧ s = u ++ List.replicate m quote := by
  constructor
  · rintro ⟨k, u, m, hne, hu, h⟩
    cases k with
    | zero =>
      obtain ⟨d, u, rfl⟩ := List.exists_cons_of_ne_nil hne
      rw [List.replicate_zero, List.nil_append, List.cons_append, List.cons.injEq] at h
      rw [List.mem_cons, not_or] at hu
      exact ⟨u, m, hu.2, h.2⟩
    | succ k =>
      rw [List.replicate_succ, List.cons_append, List.cons.injEq] at h
      exact absurd h.1 hc
  · rintro ⟨u, m, hu, rfl⟩
    exact ⟨0, c :: u, m, List.cons_ne_nil c u, by simp [hu, Ne.symm hc], rfl⟩

theorem kept_iff {s : Bytes} : kept true s = s ↔ QuotesOutside s := by
  induction s with
  | nil =>
    refine iff_of_false (fun h => by cases h) ?_
    rintro ⟨k, u, m, hne, -, h⟩
    have hnil := congrArg List.length h
    simp only [List.length_nil, List.length_append] at hnil
    exact hne (List.length_eq_zero_iff.mp (by omega))
  | cons c s ih =>
    by_cases hc : c = quote
    · subst hc
      rw [quotesOutside_cons_quote, ← ih, kept, if_pos rfl, if_pos rfl, List.cons.injEq]
      exact and_iff_right rfl
    · rw [quotesOutside_cons hc, ← kept_inQuote_iff, kept, if_neg hc, List.cons.injEq]
      exact and_iff_right rfl

theorem CsvField.read_iff (f : CsvField separator) :
    f.read = f.text ↔ (f.quoted = true → QuotesOutside f.text) := by
  unfold CsvField.read
  cases f.quoted with
  | false => exact iff_of_true rfl fun h => absurd h Bool.false_ne_true
  | true => exact kept_iff.trans ⟨fun h _ => h, fun h => h rfl⟩

theorem takeD_map_eq_iff {α β : Type} (f g : α → β) (b : β) (l : List α) (n : Nat) :
    (l.map f).takeD n b = (l.map g).takeD n b ↔ ∀ a ∈ l.take n, f a = g a := by
  induction n generalizing l with
  | zero => simp
  | succ n ih =>
    cases l with
    | nil => simp
    | cons a l => simp [List.takeD_succ, ih]

/-- The columns get the fields of a written line exactly when in each field that is quoted and
has a column the quotes stand at the ends of the text, around at least one other character. -/
theorem handed_csvLine_iff {plan : ReadFilePlan} {sep : Bytes} (h : readSeparator sep = .ok plan.separator)
    (fs : List (CsvField plan.separator)) :
    plan.handed (csvLine fs) = (fs.map CsvField.text).takeD plan.columns.length [] ↔
      ∀ f ∈ fs.take plan.columns.length, f.quoted = true → QuotesOutside f.text := by
  rw [handed, tokens_csvLine (readSeparator_ne_quote h), takeD_map_eq_iff]
  exact forall₂_congr fun f _ => f.read_iff

def csvtest : ReadFilePlan :=
  { path := bytes "test.csv"
    separator := 44
    columns := [⟨bytes "a", .string, 0, 0, none, none⟩, ⟨bytes "b", .string, 0, 1, none, none⟩] }

def endQuoted : List (CsvField csvtest.separator) :=
  [⟨bytes "x,\"", true, by decide, by decide⟩, ⟨bytes "y", false, by decide, by decide⟩]

theorem handed_csvLine_iff_endQuoted :
    csvtest.handed (csvLine endQuoted) = (endQuoted.map CsvField.text).takeD 2 [] ↔
      ∀ f ∈ endQuoted.take 2, f.quoted = true → QuotesOutside f.text :=
  @handed_csvLine_iff csvtest [44] rfl endQuoted

def emptyAndInside : List (CsvField csvtest.separator) :=
  [⟨[], true, by decide, by decide⟩, ⟨bytes "x\"y", true, by decide, by decide⟩]

/-- A quoted empty field is read as a quote, and a quote inside a field is lost. -/
theorem quoted_not_handed :
    csvLine emptyAndInside = bytes "\"\",\"x\"\"y\"" ∧
      csvtest.handed (csvLine emptyAndInside) = [bytes "\"", bytes "xy"] ∧
      (emptyAndInside.map CsvField.text).takeD 2 [] = [[], bytes "x\"y"] := by
  decide

end ReadFilePlan

end LevelPgServer
