import LevelPgServer.Common.NumberLiteral
import LevelPgServer.Common.Statements

/-! What the scanner takes at the characters of a signed number. -/

namespace LevelPgServer.SqlParser

open ParseNode Regex

def namedRules : List (ScanRule UInt8 LexAction) := lexRules.dropLast

def mysteryRule : ScanRule UInt8 LexAction := rule dot .mystery

def characterRule : ScanRule UInt8 LexAction := rule (oneOf "-+&~|^/%*(),.;!") .character

def binaryRule : ScanRule UInt8 LexAction :=
  rule (.alt (seqs [lit "x'", hexPairs, lit "'"]) (.seq (lit "0x") hexPairs)) .binary

def dashRule : ScanRule UInt8 LexAction :=
  rule (seqs [lit "--", .one (fun c => c == 32 || c == 9), .star dot, lit ";"]) .comment

theorem lexRules_eq : lexRules = namedRules ++ [mysteryRule] := rfl

theorem mem_lexRules {r : ScanRule UInt8 LexAction} (h : r ∈ namedRules) : r ∈ lexRules := List.mem_of_mem_dropLast h

theorem mystery_longest {input : Bytes} {m : Nat} (h : mysteryRule.pattern.longest input = some m) : m ≤ 1 := by
  obtain ⟨hle, hmatch, -⟩ := longest_some h
  obtain ⟨c, hc, -⟩ := matches_one.mp hmatch
  have hlen := congrArg List.length hc
  rw [List.length_take, min_eq_left hle] at hlen
  simpa using hlen.le

theorem scan_named {r : ScanRule UInt8 LexAction} (hr : r ∈ namedRules) {input : Bytes} {k : Nat} (hk : 0 < k)
    (hle : k ≤ input.length) (hmatch : Matches r.pattern (input.take k)) :
    ∃ n r', ScanRule.scan lexRules input = some (n, r') ∧ k ≤ n ∧ r' ∈ namedRules ∧
      r'.pattern.longest input = some n := by
  cases hlong : r.pattern.longest input with
  | none => exact (longest_none hlong k hmatch).elim
  | some m =>
    have hkm := (longest_some hlong).2.2 k hle hmatch
    have hsome : (ScanRule.scan namedRules input).isSome :=
      ScanRule.isSome_foldl_better (.inr ⟨r, hr, by rw [hlong]; rfl⟩)
    obtain ⟨⟨n, r'⟩, hscan⟩ := Option.isSome_iff_exists.mp hsome
    have hmn := ScanRule.longest_le_scan hscan hr hlong
    obtain ⟨hr', hlong'⟩ := ScanRule.scan_some hscan
    refine ⟨n, r', ?_, hkm.trans hmn, hr', hlong'⟩
    rw [lexRules_eq]
    exact ScanRule.scan_concat hscan fun m' hm' => (mystery_longest hm').trans (hk.trans_le (hkm.trans hmn))

/-- Whether every rule that matches at a character matches just it, for one action. -/
def single (c : UInt8) (a : LexAction) : Bool :=
  namedRules.all (fun r => !r.pattern.nullable && ((r.pattern.deriv c).isEmpty ||
    (r.pattern.deriv c).isEpsilon && decide (r.action = a) && r.trailing == 0)) &&
  namedRules.any (fun r => (r.pattern.deriv c).isEpsilon)

theorem scan_single {c : UInt8} {a : LexAction} (h : single c a = true) (rest : Bytes) :
    ∃ r, ScanRule.scan lexRules (c :: rest) = some (1, r) ∧ r.action = a ∧ r.trailing = 0 := by
  obtain ⟨hall, hany⟩ := Bool.and_eq_true_iff.mp h
  obtain ⟨r, hr, heps⟩ := List.any_eq_true.mp hany
  have hmatch := (longest_some (longest_cons_of_epsilon heps rest)).2.1
  obtain ⟨n, r', hscan, -, hr', hlong⟩ := scan_named hr Nat.one_pos
    (show 1 ≤ (c :: rest).length from Nat.le_add_left 1 _) hmatch
  have hrule := List.all_eq_true.mp hall r' hr'
  simp only [Bool.and_eq_true, Bool.or_eq_true, Bool.not_eq_true', decide_eq_true_eq, beq_iff_eq] at hrule
  obtain ⟨hnull, hempty | ⟨⟨heps', haction⟩, htrailing⟩⟩ := hrule
  · cases (longest_cons_of_deriv hempty hnull rest).symm.trans hlong
  · cases (longest_cons_of_epsilon heps' rest).symm.trans hlong
    exact ⟨r', hscan, haction, htrailing⟩

theorem single_character {c : UInt8} (hc : c ∈ [40, 41, 43]) : single c .character = true := by
  simp only [List.mem_cons, List.not_mem_nil, or_false] at hc
  obtain rfl | rfl | rfl := hc <;> decide

theorem single_blank {c : UInt8} (hc : c ∈ [32, 9, 13, 10]) : single c .comment = true := by
  simp only [List.mem_cons, List.not_mem_nil, or_false] at hc
  obtain rfl | rfl | rfl | rfl := hc <;> decide

/-- The rules that match a text with a minus sign at its beginning. -/
theorem minus_rules : namedRules.all (fun r => !r.pattern.nullable && ((r.pattern.deriv 45).isEmpty ||
    (r.pattern.deriv 45).isEpsilon && decide (r.action = .character) && r.trailing == 0 ||
    decide (r.action = .comment) && r.trailing == 0)) = true := by decide

theorem matches_dash {x : Bytes} (h : Matches dashRule.pattern x) :
    ∃ d w, x = 45 :: 45 :: d :: (w ++ [59]) ∧ (d = 32 ∨ d = 9) := by
  have hdash : ∀ {y : Bytes}, Matches (chr 45) y ↔ ∃ c, y = [c] ∧ c = 45 :=
    matches_letter (forall_byte (by decide +kernel))
  have hsemicolon : ∀ {y : Bytes}, Matches (lit ";") y ↔ ∃ c, y = [c] ∧ c = 59 :=
    matches_letter (forall_byte (by decide +kernel))
  obtain ⟨u, y, rfl, hu, hy⟩ := matches_seq.mp h
  obtain ⟨v, w, z, rfl, hv, -, hz⟩ := matches_seqs_three.mp hy
  obtain ⟨a, b, rfl, ha, hb⟩ := matches_seq.mp hu
  obtain ⟨_, rfl, rfl⟩ := hdash.mp ha
  obtain ⟨_, rfl, rfl⟩ := hdash.mp hb
  obtain ⟨d, rfl, hd⟩ := matches_one.mp hv
  obtain ⟨_, rfl, rfl⟩ := hsemicolon.mp hz
  exact ⟨d, w, rfl, by simpa using hd⟩

/-- A minus sign is a token, unless a comment begins with it that a semicolon ends. -/
theorem scan_minus (rest : Bytes) :
    (∃ r, ScanRule.scan lexRules (45 :: rest) = some (1, r) ∧ r.action = .character ∧ r.trailing = 0) ∨
    ∃ r d w more, ScanRule.scan lexRules (45 :: rest) = some (w.length + 4, r) ∧ r.action = .comment ∧
      r.trailing = 0 ∧ rest = 45 :: d :: (w ++ 59 :: more) ∧ (d = 32 ∨ d = 9) := by
  have hmem : characterRule ∈ namedRules := by
    have h : characterRule ∈ namedRules.filter (fun r => r.action = .character) := List.mem_singleton_self _
    exact (List.mem_filter.mp h).1
  have heps : (characterRule.pattern.deriv 45).isEpsilon = true := by decide
  have hmatch := (longest_some (longest_cons_of_epsilon heps rest)).2.1
  obtain ⟨n, r, hscan, -, hr, hlong⟩ := scan_named hmem Nat.one_pos
    (show 1 ≤ ((45 : UInt8) :: rest).length from Nat.le_add_left 1 _) hmatch
  have hrule := List.all_eq_true.mp minus_rules r hr
  simp only [Bool.and_eq_true, Bool.or_eq_true, Bool.not_eq_true', decide_eq_true_eq, beq_iff_eq] at hrule
  obtain ⟨hnull, (hempty | ⟨⟨heps', haction⟩, htrailing⟩) | ⟨haction, htrailing⟩⟩ := hrule
  · cases (longest_cons_of_deriv hempty hnull rest).symm.trans hlong
  · cases (longest_cons_of_epsilon heps' rest).symm.trans hlong
    exact .inl ⟨r, hscan, haction, htrailing⟩
  · right
    have hcomment : r ∈ lexRules.filter (fun r => r.action = .comment) :=
      List.mem_filter.mpr ⟨mem_lexRules hr, by simp [haction]⟩
    have hdash : r = dashRule := by
      by_contra hne
      have hother : (r.pattern.deriv 45).isEmpty = true := by
        have hall : (lexRules.filter (fun r => r.action = .comment)).dropLast.all
            (fun r => (r.pattern.deriv 45).isEmpty) = true := by decide
        refine List.all_eq_true.mp hall r ?_
        have hsplit : lexRules.filter (fun r => r.action = .comment) =
            (lexRules.filter (fun r => r.action = .comment)).dropLast ++ [dashRule] := rfl
        rw [hsplit] at hcomment
        exact (List.mem_append.mp hcomment).resolve_right fun h => hne (List.mem_singleton.mp h)
      cases (longest_cons_of_deriv hother hnull rest).symm.trans hlong
    subst hdash
    obtain ⟨hle, hmatch, -⟩ := longest_some hlong
    obtain ⟨d, w, htake, hd⟩ := matches_dash hmatch
    have hsplit := (List.take_append_drop n (45 :: rest)).symm
    rw [htake] at hsplit
    have hn := congrArg List.length htake
    rw [List.length_take, min_eq_left hle] at hn
    refine ⟨dashRule, d, w, (45 :: rest).drop n, ?_, haction, htrailing, ?_, hd⟩
    · rw [hscan, hn]
      simp
    · simpa using hsplit

/-- The rules that match a text with a digit or a point at its beginning. -/
theorem number_rules : namedRules.all (fun r => !r.pattern.nullable &&
    ((bytes "0123456789.").all (fun c => (r.pattern.deriv c).isEmpty) ||
      [LexAction.intnum, .approxnum, .character, .binary].contains r.action && r.trailing == 0)) = true := by
  decide

theorem mem_numberStarts {c : UInt8} (hc : isDigit c = true ∨ c = 46) : c ∈ bytes "0123456789." := by
  have hall : ∀ c : UInt8, isDigit c = true ∨ c = 46 → c ∈ bytes "0123456789." := forall_byte (by decide +kernel)
  exact hall c hc

theorem not_character {c : UInt8} (hc : isDigit c = true) : ¬ Matches characterRule.pattern [c] := by
  have hall : ∀ c : UInt8, isDigit c = true →
      ((bytes "-+&~|^/%*(),.;!").contains c || (bytes "-+&~|^/%*(),.;!").contains (Tools.toLower c)) = false :=
    forall_byte (by decide +kernel)
  intro h
  obtain ⟨d, hd, hmem⟩ := matches_one.mp h
  obtain rfl := List.singleton_inj.mp hd
  rw [hall _ hc] at hmem
  cases hmem

/-- A binary literal that begins with a digit or a point has an `x` behind it. -/
theorem matches_binary {c : UInt8} {x : Bytes} (hc : isDigit c = true ∨ c = 46)
    (h : Matches binaryRule.pattern (c :: x)) : ∃ d y, x = d :: y ∧ (d = 120 ∨ d = 88) := by
  have hx : ∀ {y : Bytes}, Matches (chr 120) y ↔ ∃ c, y = [c] ∧ (c = 120 ∨ c = 88) :=
    matches_letter (forall_byte (by decide +kernel))
  have hne : ∀ d : UInt8, d = 120 ∨ d = 88 → ¬ (isDigit d = true ∨ d = 46) := forall_byte (by decide +kernel)
  obtain h | h := matches_alt.mp h
  · exfalso
    obtain ⟨u, v, w, hsplit, hu, -⟩ := matches_seqs_three.mp h
    obtain ⟨a, b, rfl, ha, -⟩ := matches_seq.mp hu
    obtain ⟨d, rfl, hd⟩ := hx.mp ha
    rw [List.append_assoc, List.singleton_append, List.cons.injEq] at hsplit
    exact hne d hd (hsplit.1 ▸ hc)
  · obtain ⟨u, v, hsplit, hu, -⟩ := matches_seq.mp h
    obtain ⟨a, b, rfl, ha, hb⟩ := matches_seq.mp hu
    obtain ⟨e, rfl, -⟩ := matches_one.mp ha
    obtain ⟨d, rfl, hd⟩ := hx.mp hb
    simp only [List.cons_append, List.nil_append, List.cons.injEq] at hsplit
    exact ⟨d, v, hsplit.2, hd⟩

theorem scan_number (l : Literal) {rest : Bytes} (hrest : Literal.Apart rest) :
    ∃ r, ScanRule.scan lexRules (l.text ++ rest) = some (l.text.length, r) ∧ r.action = l.action ∧ r.trailing = 0 := by
  obtain ⟨c, t, htext, hc⟩ := l.head_text
  obtain ⟨r₀, hr₀, hmatch₀⟩ := matches_of_literal l
  have hnumber : ∀ r : ScanRule UInt8 LexAction, r = intRule ∨ r ∈ approxRules → r ∈ namedRules := by
    intro r hr
    have hmem : r ∈ namedRules.filter (fun r => r.action = .intnum ∨ r.action = .approxnum) := by
      have heq : namedRules.filter (fun r => r.action = .intnum ∨ r.action = .approxnum) = intRule :: approxRules := rfl
      rw [heq]
      exact List.mem_cons.mpr hr
    exact (List.mem_filter.mp hmem).1
  have hpos : 0 < l.text.length := by
    rw [htext]
    exact Nat.succ_pos _
  obtain ⟨n, r, hscan, hge, hr, hlong⟩ := scan_named (hnumber r₀ hr₀) hpos (show _ ≤ (l.text ++ rest).length by simp)
    (by rwa [List.take_left])
  obtain ⟨hle, hmatch, -⟩ := longest_some hlong
  -- the text that the rule takes begins with the number
  obtain ⟨z, hz, htake⟩ : ∃ z, z <+: rest ∧ (l.text ++ rest).take n = l.text ++ z :=
    ⟨rest.take (n - l.text.length), List.take_prefix _ _, by rw [List.take_append, List.take_of_length_le hge]⟩
  have hn : n = (l.text ++ z).length := by
    rw [← htake, List.length_take, min_eq_left hle]
  rw [htake] at hmatch
  have hrule := List.all_eq_true.mp number_rules r hr
  simp only [Bool.and_eq_true, Bool.or_eq_true, Bool.not_eq_true', beq_iff_eq] at hrule
  obtain ⟨hnull, hempty | ⟨haction, htrailing⟩⟩ := hrule
  · have hderiv := List.all_eq_true.mp hempty c (mem_numberStarts hc)
    rw [htext, List.cons_append] at hlong
    cases (longest_cons_of_deriv hderiv hnull (t ++ rest)).symm.trans hlong
  · have hmem : ∀ a, r.action = a → r ∈ lexRules.filter (fun r => r.action = a) := fun a ha =>
      List.mem_filter.mpr ⟨mem_lexRules hr, by simp [ha]⟩
    have hnum : r = intRule ∨ r ∈ approxRules := by
      simp only [List.contains_eq_mem, List.mem_cons, List.not_mem_nil, or_false, decide_eq_true_eq] at haction
      obtain h | h | h | h := haction
      · exact .inl (List.mem_singleton.mp (hmem _ h))
      · exact .inr (hmem _ h)
      · exfalso
        have hchar : r = characterRule := List.mem_singleton.mp (hmem _ h)
        subst hchar
        obtain ⟨d, hd, -⟩ := matches_one.mp hmatch
        rw [htext, List.cons_append, List.cons.injEq, List.append_eq_nil_iff] at hd
        obtain ⟨rfl, rfl, rfl⟩ := hd
        obtain ⟨e, he, hdigit⟩ := l.digit_mem
        rw [htext] at he
        obtain rfl := List.mem_singleton.mp he
        rw [htext] at hmatch
        exact not_character hdigit hmatch
      · exfalso
        have hbinary : r = binaryRule := List.mem_singleton.mp (hmem _ h)
        subst hbinary
        rw [htext, List.cons_append] at hmatch
        obtain ⟨d, y, hy, hd⟩ := matches_binary hc hmatch
        cases t with
        | nil =>
          rw [List.nil_append] at hy
          subst hy
          obtain ⟨more, rfl⟩ := hz
          have happart := (hrest d rfl).2
          obtain rfl | rfl := hd <;> exact happart (by decide)
        | cons e t =>
          rw [List.cons_append, List.cons.injEq] at hy
          obtain ⟨rfl, -⟩ := hy
          have hchar := l.mem_text (c := e) (by rw [htext]; exact List.mem_cons_of_mem _ List.mem_cons_self)
          obtain rfl | rfl := hd <;> revert hchar <;> decide
    obtain ⟨l', htext', haction'⟩ := literal_of_matches hnum hmatch
    obtain rfl := Literal.eq_nil_of_apart hrest hz htext'.symm
    rw [List.append_nil] at hn htext'
    refine ⟨r, by rw [hscan, hn], ?_, htrailing⟩
    rw [haction', Literal.action, Literal.action, l'.isInt_eq, l.isInt_eq, htext']

end LevelPgServer.SqlParser
