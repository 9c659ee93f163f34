import LevelPgServer.Common.ParseTime
import LevelPgServer.Common.StringLiteral

/-! Numbers, and the rules of the scanner that match them. -/

namespace LevelPgServer.SqlParser

open Regex

structure Exponent where
  letter : UInt8
  sign : Option UInt8
  digits : Bytes
  letter_eq : letter = 101 ∨ letter = 69
  sign_eq : ∀ c ∈ sign, c = 43 ∨ c = 45
  digits_ne_nil : digits ≠ []
  isDigit : ∀ c ∈ digits, isDigit c = true

structure Literal where
  whole : Bytes
  frac : Option Bytes
  exp : Option Exponent
  ne_nil : whole ++ frac.getD [] ≠ []
  isDigit : ∀ c ∈ whole ++ frac.getD [], isDigit c = true

namespace Exponent

def text (e : Exponent) : Bytes := e.letter :: (e.sign.toList ++ e.digits)

def value (e : Exponent) : Int :=
  if e.sign = some 45 then -(ParseTime.decimal e.digits : Int) else ParseTime.decimal e.digits

end Exponent

namespace Literal

def mantissa (l : Literal) : Bytes := l.whole ++ (l.frac.map (46 :: ·)).getD []

def text (l : Literal) : Bytes := l.mantissa ++ (l.exp.map Exponent.text).getD []

def value (l : Literal) : ℚ :=
  ParseTime.decimal (l.whole ++ l.frac.getD []) * 10 ^ ((l.exp.map Exponent.value).getD 0 - (l.frac.getD []).length : ℤ)

def isInt (l : Literal) : Bool := l.frac.isNone && l.exp.isNone

def action (l : Literal) : LexAction := if l.isInt then .intnum else .approxnum

end Literal

section Patterns

theorem isDigit_toLower (c : UInt8) : (isDigit c || isDigit (Tools.toLower c)) = isDigit c := by
  revert c
  exact forall_byte (by decide +kernel)

theorem matches_digit {x : Bytes} : Matches digit x ↔ ∃ c, x = [c] ∧ isDigit c = true := by
  unfold digit letter
  rw [matches_one]
  simp only [isDigit_toLower]

theorem matches_digits {x : Bytes} : Matches (.star digit) x ↔ ∀ c ∈ x, isDigit c = true := by
  constructor
  · refine star_induction (P := fun x => ∀ c ∈ x, isDigit c = true) (by simp) fun y z hy _ hz c hc => ?_
    obtain ⟨d, rfl, hd⟩ := matches_digit.mp hy
    obtain hc | hc := List.mem_append.mp hc
    · rwa [List.mem_singleton.mp hc]
    · exact hz c hc
  · exact fun h => star_of_forall fun c hc => matches_digit.mpr ⟨c, rfl, h c hc⟩

theorem matches_plusDigits {x : Bytes} : Matches (.plus digit) x ↔ x ≠ [] ∧ ∀ c ∈ x, isDigit c = true := by
  unfold plus
  rw [matches_seq]
  simp only [matches_digit, matches_digits]
  constructor
  · rintro ⟨_, z, rfl, ⟨c, rfl, hc⟩, hz⟩
    exact ⟨by simp, by simpa using ⟨hc, hz⟩⟩
  · rintro ⟨hne, hx⟩
    obtain ⟨c, z, rfl⟩ := List.exists_cons_of_ne_nil hne
    exact ⟨[c], z, rfl, ⟨c, rfl, hx c (by simp)⟩, fun d hd => hx d (by simp [hd])⟩

theorem matches_letter {p : UInt8 → Bool} {x : Bytes} {P : UInt8 → Prop}
    (h : ∀ c, (p c || p (Tools.toLower c)) = true ↔ P c) : Matches (letter p) x ↔ ∃ c, x = [c] ∧ P c := by
  unfold letter
  rw [matches_one]
  simp only [h]

theorem matches_point {x : Bytes} : Matches (lit ".") x ↔ x = [46] := by
  have h : Matches (lit ".") x ↔ ∃ c, x = [c] ∧ c = 46 := matches_letter (forall_byte (by decide +kernel))
  simpa using h

theorem matches_exponent {x : Bytes} : Matches exponent x ↔ ∃ e : Exponent, x = e.text := by
  have hletter : ∀ y : Bytes, Matches (lit "e") y ↔ ∃ c, y = [c] ∧ (c = 101 ∨ c = 69) :=
    fun y => matches_letter (forall_byte (by decide +kernel))
  have hsign : ∀ y : Bytes, Matches (oneOf "-+") y ↔ ∃ c, y = [c] ∧ (c = 43 ∨ c = 45) :=
    fun y => matches_letter (forall_byte (by decide +kernel))
  unfold exponent opt
  rw [matches_seqs_three]
  simp only [hletter, hsign, matches_alt, matches_plusDigits]
  constructor
  · rintro ⟨_, v, w, rfl, ⟨c, rfl, hc⟩, hv, hw, hdigit⟩
    obtain hv | ⟨s, rfl, hs⟩ := hv
    · cases hv
      exact ⟨⟨c, none, w, hc, by simp, hw, hdigit⟩, rfl⟩
    · exact ⟨⟨c, some s, w, hc, by simpa using hs, hw, hdigit⟩, rfl⟩
  · rintro ⟨⟨c, sign, w, hc, hs, hw, hdigit⟩, rfl⟩
    refine ⟨[c], sign.toList, w, rfl, ⟨c, rfl, hc⟩, ?_, hw, hdigit⟩
    cases sign with
    | none => exact .inl .epsilon
    | some s => exact .inr ⟨s, rfl, hs s rfl⟩

end Patterns

def intRule : ScanRule UInt8 LexAction := rule (.plus digit) .intnum

def approxRules : List (ScanRule UInt8 LexAction) := [
  rule (seqs [.plus digit, lit ".", .star digit]) .approxnum,
  rule (.seq (lit ".") (.plus digit)) .approxnum,
  rule (.seq (.plus digit) exponent) .approxnum,
  rule (seqs [.plus digit, lit ".", .star digit, exponent]) .approxnum,
  rule (seqs [lit ".", .plus digit, exponent]) .approxnum]

theorem literal_of_matches {r : ScanRule UInt8 LexAction} {x : Bytes} (hr : r = intRule ∨ r ∈ approxRules)
    (h : Matches r.pattern x) : ∃ l : Literal, x = l.text ∧ r.action = l.action := by
  obtain rfl | hr := hr
  · obtain ⟨hne, hx⟩ := matches_plusDigits.mp h
    exact ⟨⟨x, none, none, by simpa using hne, by simpa using hx⟩, by simp [Literal.text, Literal.mantissa], rfl⟩
  · simp only [approxRules, List.mem_cons, List.not_mem_nil, or_false] at hr
    obtain rfl | rfl | rfl | rfl | rfl := hr
    · obtain ⟨u, v, w, rfl, hu, hv, hw⟩ := matches_seqs_three.mp h
      obtain ⟨hne, hu⟩ := matches_plusDigits.mp hu
      obtain rfl := matches_point.mp hv
      have hw := matches_digits.mp hw
      exact ⟨⟨u, some w, none, by simp [hne], by simpa using fun c hc => hc.elim (hu c) (hw c)⟩,
        by simp [Literal.text, Literal.mantissa], rfl⟩
    · obtain ⟨v, w, rfl, hv, hw⟩ := matches_seq.mp h
      obtain rfl := matches_point.mp hv
      obtain ⟨hne, hw⟩ := matches_plusDigits.mp hw
      exact ⟨⟨[], some w, none, by simp [hne], by simpa using hw⟩, by simp [Literal.text, Literal.mantissa], rfl⟩
    · obtain ⟨u, v, rfl, hu, hv⟩ := matches_seq.mp h
      obtain ⟨hne, hu⟩ := matches_plusDigits.mp hu
      obtain ⟨e, rfl⟩ := matches_exponent.mp hv
      exact ⟨⟨u, none, some e, by simp [hne], by simpa using hu⟩, by simp [Literal.text, Literal.mantissa], rfl⟩
    · obtain ⟨u, y, rfl, hu, hy⟩ := matches_seq.mp h
      obtain ⟨v, w, z, rfl, hv, hw, hz⟩ := matches_seqs_three.mp hy
      obtain ⟨hne, hu⟩ := matches_plusDigits.mp hu
      obtain rfl := matches_point.mp hv
      have hw := matches_digits.mp hw
      obtain ⟨e, rfl⟩ := matches_exponent.mp hz
      exact ⟨⟨u, some w, some e, by simp [hne], by simpa using fun c hc => hc.elim (hu c) (hw c)⟩,
        by simp [Literal.text, Literal.mantissa], rfl⟩
    · obtain ⟨v, w, z, rfl, hv, hw, hz⟩ := matches_seqs_three.mp h
      obtain rfl := matches_point.mp hv
      obtain ⟨hne, hw⟩ := matches_plusDigits.mp hw
      obtain ⟨e, rfl⟩ := matches_exponent.mp hz
      exact ⟨⟨[], some w, some e, by simp [hne], by simpa using hw⟩, by simp [Literal.text, Literal.mantissa], rfl⟩

theorem matches_of_literal (l : Literal) :
    ∃ r : ScanRule UInt8 LexAction, (r = intRule ∨ r ∈ approxRules) ∧ Matches r.pattern l.text := by
  obtain ⟨whole, frac, exp, hne, hdigit⟩ := l
  have hexp : ∀ e : Exponent, Matches exponent e.text := fun e => matches_exponent.mpr ⟨e, rfl⟩
  cases frac with
  | none =>
    have hwhole : Matches (.plus digit) whole := matches_plusDigits.mpr ⟨by simpa using hne, by simpa using hdigit⟩
    cases exp with
    | none =>
      refine ⟨intRule, .inl rfl, ?_⟩
      have htext : (Literal.mk whole none none hne hdigit).text = whole := by simp [Literal.text, Literal.mantissa]
      rw [htext]
      exact hwhole
    | some e =>
      refine ⟨rule (.seq (.plus digit) exponent) .approxnum, .inr (by simp [approxRules]), ?_⟩
      have htext : (Literal.mk whole none (some e) hne hdigit).text = whole ++ e.text := by
        simp [Literal.text, Literal.mantissa]
      rw [htext]
      exact .seq hwhole (hexp e)
  | some f =>
    have hf : ∀ c ∈ f, isDigit c = true := fun c hc => hdigit c (by simp [hc])
    have hpoint : Matches (lit ".") [46] := matches_point.mpr rfl
    by_cases hw : whole = []
    · subst hw
      have hplus : Matches (.plus digit) f := matches_plusDigits.mpr ⟨by simpa using hne, hf⟩
      cases exp with
      | none =>
        refine ⟨rule (.seq (lit ".") (.plus digit)) .approxnum, .inr (by simp [approxRules]), ?_⟩
        have htext : (Literal.mk [] (some f) none hne hdigit).text = [46] ++ f := by
          simp [Literal.text, Literal.mantissa]
        rw [htext]
        exact .seq hpoint hplus
      | some e =>
        refine ⟨rule (seqs [lit ".", .plus digit, exponent]) .approxnum, .inr (by simp [approxRules]), ?_⟩
        exact matches_seqs_three.mpr ⟨[46], f, e.text, by simp [Literal.text, Literal.mantissa], hpoint, hplus, hexp e⟩
    · have hwhole : Matches (.plus digit) whole :=
        matches_plusDigits.mpr ⟨hw, fun c hc => hdigit c (by simp [hc])⟩
      have hstar : Matches (.star digit) f := matches_digits.mpr hf
      cases exp with
      | none =>
        refine ⟨rule (seqs [.plus digit, lit ".", .star digit]) .approxnum, .inr (by simp [approxRules]), ?_⟩
        exact matches_seqs_three.mpr ⟨whole, [46], f, by simp [Literal.text, Literal.mantissa], hwhole, hpoint, hstar⟩
      | some e =>
        refine ⟨rule (seqs [.plus digit, lit ".", .star digit, exponent]) .approxnum, .inr (by simp [approxRules]), ?_⟩
        exact matches_seq.mpr ⟨whole, 46 :: (f ++ e.text), by simp [Literal.text, Literal.mantissa], hwhole,
          matches_seqs_three.mpr ⟨[46], f, e.text, rfl, hpoint, hstar, hexp e⟩⟩

namespace Literal

variable {l l' : Literal} {c : UInt8} {rest z : Bytes}

theorem mem_mantissa (h : c ∈ l.mantissa) : SqlParser.isDigit c = true ∨ c = 46 := by
  obtain h | h := List.mem_append.mp h
  · exact .inl (l.isDigit c (List.mem_append_left _ h))
  · cases hfrac : l.frac with
    | none =>
      rw [hfrac] at h
      cases h
    | some f =>
      rw [hfrac] at h
      obtain rfl | h := List.mem_cons.mp h
      · exact .inr rfl
      · exact .inl (l.isDigit c (List.mem_append_right _ (by rwa [hfrac])))

theorem text_cases (l : Literal) : l.exp = none ∧ l.text = l.mantissa ∨
    ∃ e : Exponent, l.exp = some e ∧ l.text = l.mantissa ++ e.letter :: (e.sign.toList ++ e.digits) := by
  unfold text
  cases hexp : l.exp with
  | none => exact .inl ⟨rfl, List.append_nil _⟩
  | some e => exact .inr ⟨e, rfl, rfl⟩

theorem mantissa_ne_nil (l : Literal) : l.mantissa ≠ [] := by
  intro h
  obtain ⟨hwhole, hfrac⟩ := List.append_eq_nil_iff.mp h
  refine l.ne_nil ?_
  cases hf : l.frac with
  | none => simpa using hwhole
  | some f =>
    rw [hf] at hfrac
    cases hfrac

theorem last_text {a : Bytes} (h : l.text = a ++ [c]) : SqlParser.isDigit c = true ∨ c = 46 := by
  obtain ⟨-, htext⟩ | ⟨e, -, htext⟩ := l.text_cases
  · refine mem_mantissa (l := l) ?_
    rw [← htext, h]
    exact List.mem_append_right a (List.mem_singleton_self c)
  · left
    obtain ⟨ds, d, hds⟩ := (List.eq_nil_or_concat e.digits).resolve_left e.digits_ne_nil
    rw [List.concat_eq_append] at hds
    have hlast := htext.symm.trans h
    rw [hds, ← List.append_assoc, ← List.cons_append, ← List.append_assoc] at hlast
    obtain rfl := List.singleton_inj.mp (List.append_inj_right' hlast rfl)
    exact e.isDigit d (by rw [hds]; exact List.mem_append_right ds (List.mem_singleton_self d))

/-- A sign stands behind the letter of the exponent. -/
theorem sign_behind {a b : Bytes} (h : l.text = a ++ c :: b) (hc : c = 43 ∨ c = 45) :
    ∃ a' d, a = a' ++ [d] ∧ (d = 101 ∨ d = 69) := by
  have hne : SqlParser.isDigit c = false ∧ c ≠ 46 ∧ ¬ (c = 101 ∨ c = 69) := by
    obtain rfl | rfl := hc <;> decide
  have hmantissa : c ∉ l.mantissa := by
    intro hmem
    obtain hd | hd := mem_mantissa hmem
    · rw [hne.1] at hd
      cases hd
    · exact hne.2.1 hd
  obtain ⟨-, htext⟩ | ⟨e, -, htext⟩ := l.text_cases
  · rw [htext] at h
    exact absurd (h ▸ List.mem_append_right a List.mem_cons_self) hmantissa
  · have hdigits : c ∉ e.digits := by
      intro hmem
      rw [e.isDigit c hmem] at hne
      cases hne.1
    obtain ⟨u, rfl, hu⟩ | ⟨u, hu, hv⟩ := List.append_eq_append_iff.mp (htext.symm.trans h)
    · cases u with
      | nil =>
        rw [List.nil_append, List.cons.injEq] at hu
        exact absurd (hu.1 ▸ e.letter_eq) hne.2.2
      | cons d u =>
        rw [List.cons_append, List.cons.injEq] at hu
        obtain ⟨rfl, hu⟩ := hu
        cases u with
        | nil => exact ⟨l.mantissa, e.letter, rfl, e.letter_eq⟩
        | cons d u =>
          exfalso
          cases hsign : e.sign with
          | none =>
            rw [hsign, Option.toList_none, List.nil_append] at hu
            exact hdigits (hu ▸ List.mem_append_right (d :: u) List.mem_cons_self)
          | some s =>
            rw [hsign, Option.toList_some, List.singleton_append, List.cons_append, List.cons.injEq] at hu
            exact hdigits (hu.2 ▸ List.mem_append_right u List.mem_cons_self)
    · cases u with
      | nil =>
        rw [List.nil_append, List.cons.injEq] at hv
        exact absurd (hv.1 ▸ e.letter_eq) hne.2.2
      | cons d u =>
        rw [List.cons_append, List.cons.injEq] at hv
        rw [hv.1] at hmantissa
        exact absurd (hu ▸ List.mem_append_right a List.mem_cons_self) hmantissa

theorem mem_text (h : c ∈ l.text) : SqlParser.isDigit c = true ∨ c ∈ [46, 101, 69, 43, 45] := by
  obtain ⟨-, htext⟩ | ⟨e, -, htext⟩ := l.text_cases
  · rw [htext] at h
    exact (mem_mantissa h).imp_right fun h => by simp [h]
  · rw [htext] at h
    obtain h | h := List.mem_append.mp h
    · exact (mem_mantissa h).imp_right fun h => by simp [h]
    · obtain rfl | h := List.mem_cons.mp h
      · right
        obtain h | h := e.letter_eq <;> simp [h]
      · obtain h | h := List.mem_append.mp h
        · right
          obtain h | h := e.sign_eq c (Option.mem_toList.mp h) <;> simp [h]
        · exact .inl (e.isDigit c h)

/-- Nothing behind the number goes on with it. -/
def Apart (rest : Bytes) : Prop := ∀ c ∈ rest.head?, SqlParser.isDigit c = false ∧ c ∉ [46, 101, 69, 120, 88]

theorem eq_nil_of_apart (hrest : Apart rest) (hz : z <+: rest) (h : l'.text = l.text ++ z) : z = [] := by
  cases z with
  | nil => rfl
  | cons c z =>
    obtain ⟨more, rfl⟩ := hz
    obtain ⟨hdigit, hc⟩ := hrest c rfl
    have hmem : c ∈ l'.text := by
      rw [h]
      exact List.mem_append_right _ List.mem_cons_self
    have hsign : c = 43 ∨ c = 45 := by
      obtain hd | hd := mem_text hmem
      · rw [hdigit] at hd
        cases hd
      · simp only [List.mem_cons, List.not_mem_nil, or_false, not_or] at hc hd
        tauto
    obtain ⟨a, d, ha, hd⟩ := sign_behind h hsign
    obtain hlast | hlast := last_text ha
    · obtain rfl | rfl := hd <;> cases hlast
    · rw [hlast] at hd
      exact absurd hd (by decide)

theorem head_text (l : Literal) : ∃ c t, l.text = c :: t ∧ (SqlParser.isDigit c = true ∨ c = 46) := by
  obtain ⟨c, t, ht⟩ := List.exists_cons_of_ne_nil l.mantissa_ne_nil
  refine ⟨c, t ++ (l.exp.map Exponent.text).getD [], ?_, mem_mantissa (by rw [ht]; exact List.mem_cons_self)⟩
  rw [text, ht, List.cons_append]

theorem digit_mem (l : Literal) : ∃ c ∈ l.text, SqlParser.isDigit c = true := by
  obtain ⟨c, t, ht⟩ := List.exists_cons_of_ne_nil l.ne_nil
  have hc : c ∈ l.whole ++ l.frac.getD [] := by
    rw [ht]
    exact List.mem_cons_self
  refine ⟨c, List.mem_append_left _ ?_, l.isDigit c hc⟩
  obtain h | h := List.mem_append.mp hc
  · exact List.mem_append_left _ h
  · refine List.mem_append_right _ ?_
    cases hf : l.frac with
    | none =>
      rw [hf] at h
      cases h
    | some f =>
      rw [hf] at h
      exact List.mem_cons_of_mem _ h

theorem isInt_eq (l : Literal) : l.isInt = l.text.all SqlParser.isDigit := by
  unfold isInt
  cases hf : l.frac with
  | none =>
    cases he : l.exp with
    | none =>
      have htext : l.text = l.whole := by simp [text, mantissa, hf, he]
      rw [htext]
      exact (List.all_eq_true.mpr fun c hc => l.isDigit c (List.mem_append_left _ hc)).symm
    | some e =>
      have hmem : e.letter ∈ l.text := by simp [text, he, Exponent.text]
      have hletter : SqlParser.isDigit e.letter = false := by
        obtain h | h := e.letter_eq <;> rw [h] <;> decide
      exact (List.all_eq_false.mpr ⟨_, hmem, by simp [hletter]⟩).symm
  | some f =>
    have hmem : (46 : UInt8) ∈ l.text := by simp [text, mantissa, hf]
    exact (List.all_eq_false.mpr ⟨46, hmem, by decide⟩).symm

end Literal

end LevelPgServer.SqlParser
