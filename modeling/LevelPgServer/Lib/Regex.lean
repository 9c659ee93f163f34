import Mathlib.Tactic

/-! Regular expressions over classes of letters, the longest prefix one matches, and the rule of
a scanner with the longest match. -/

namespace LevelPgServer

inductive Regex (α : Type)
  | empty
  | epsilon
  | one (p : α → Bool)
  | seq (r s : Regex α)
  | alt (r s : Regex α)
  | star (r : Regex α)

namespace Regex

variable {α : Type}

inductive Matches : Regex α → List α → Prop
  | epsilon : Matches epsilon []
  | one {p : α → Bool} {a : α} (h : p a) : Matches (one p) [a]
  | seq {r s : Regex α} {x y : List α} (hr : Matches r x) (hs : Matches s y) : Matches (seq r s) (x ++ y)
  | left {r s : Regex α} {x : List α} (hr : Matches r x) : Matches (alt r s) x
  | right {r s : Regex α} {x : List α} (hs : Matches s x) : Matches (alt r s) x
  | done {r : Regex α} : Matches (star r) []
  | more {r : Regex α} {x y : List α} (hr : Matches r x) (hs : Matches (star r) y) : Matches (star r) (x ++ y)

def plus (r : Regex α) : Regex α := seq r (star r)

def opt (r : Regex α) : Regex α := alt epsilon r

def times (r : Regex α) : Nat → Regex α
  | 0 => epsilon
  | 1 => r
  | n + 1 => seq r (times r n)

def nullable : Regex α → Bool
  | empty | one _ => false
  | epsilon | star _ => true
  | seq r s => r.nullable && s.nullable
  | alt r s => r.nullable || s.nullable

theorem nullable_iff (r : Regex α) : r.nullable = true ↔ Matches r [] := by
  induction r with
  | empty => exact iff_of_false Bool.false_ne_true (fun h => by cases h)
  | epsilon => exact iff_of_true rfl .epsilon
  | one p => exact iff_of_false Bool.false_ne_true (fun h => by cases h)
  | seq r s ihr ihs =>
    simp only [nullable, Bool.and_eq_true, ihr, ihs]
    constructor
    · rintro ⟨hr, hs⟩
      exact .seq hr hs
    · intro h
      generalize hx : ([] : List α) = x at h
      cases h with
      | seq hr hs =>
        obtain ⟨rfl, rfl⟩ := List.append_eq_nil_iff.mp hx.symm
        exact ⟨hr, hs⟩
  | alt r s ihr ihs =>
    simp only [nullable, Bool.or_eq_true, ihr, ihs]
    constructor
    · rintro (h | h)
      · exact .left h
      · exact .right h
    · intro h
      cases h with
      | left h => exact .inl h
      | right h => exact .inr h
  | star r _ => exact iff_of_true rfl .done

/-- Whether nothing can be matched, as far as the constructors show. -/
def isEmpty : Regex α → Bool
  | empty => true
  | _ => false

theorem isEmpty_iff (r : Regex α) : r.isEmpty = true ↔ r = empty := by
  cases r <;> simp [isEmpty]

def mkSeq (r s : Regex α) : Regex α := if r.isEmpty || s.isEmpty then empty else seq r s

def mkAlt (r s : Regex α) : Regex α := if r.isEmpty then s else if s.isEmpty then r else alt r s

theorem matches_empty (x : List α) : ¬ Matches empty x := fun h => by cases h

theorem matches_mkSeq (r s : Regex α) (x : List α) : Matches (mkSeq r s) x ↔ Matches (seq r s) x := by
  unfold mkSeq
  split
  case isFalse => exact Iff.rfl
  case isTrue h =>
    refine ⟨fun hx => (matches_empty x hx).elim, fun hx => ?_⟩
    cases hx with
    | seq hr hs =>
      obtain h | h := (Bool.or_eq_true _ _).mp h
      · rw [(isEmpty_iff r).mp h] at hr
        exact (matches_empty _ hr).elim
      · rw [(isEmpty_iff s).mp h] at hs
        exact (matches_empty _ hs).elim

theorem matches_mkAlt (r s : Regex α) (x : List α) : Matches (mkAlt r s) x ↔ Matches r x ∨ Matches s x := by
  unfold mkAlt
  split
  case isTrue h =>
    rw [(isEmpty_iff r).mp h]
    exact ⟨.inr, fun hx => hx.resolve_left (matches_empty x)⟩
  case isFalse =>
    split
    case isTrue h =>
      rw [(isEmpty_iff s).mp h]
      exact ⟨.inl, fun hx => hx.resolve_right (matches_empty x)⟩
    case isFalse =>
      constructor
      · intro hx
        cases hx with
        | left hr => exact .inl hr
        | right hs => exact .inr hs
      · rintro (hx | hx)
        · exact .left hx
        · exact .right hx

/-- What remains to be matched after the letter `a`. -/
def deriv (a : α) : Regex α → Regex α
  | empty | epsilon => empty
  | one p => if p a then epsilon else empty
  | seq r s => if r.nullable then mkAlt (mkSeq (r.deriv a) s) (s.deriv a) else mkSeq (r.deriv a) s
  | alt r s => mkAlt (r.deriv a) (s.deriv a)
  | star r => mkSeq (r.deriv a) (star r)

theorem matches_seq_cons {r s : Regex α} {a : α} {x : List α} :
    Matches (seq r s) (a :: x) ↔
      (∃ y z, x = y ++ z ∧ Matches r (a :: y) ∧ Matches s z) ∨ Matches r [] ∧ Matches s (a :: x) := by
  constructor
  · intro h
    generalize hx : a :: x = w at h
    cases h with
    | @seq _ _ y z hr hs =>
      obtain _ | ⟨b, y⟩ := y
      · rw [List.nil_append] at hx
        exact .inr ⟨hr, hx ▸ hs⟩
      · obtain ⟨rfl, rfl⟩ := List.cons.inj hx
        exact .inl ⟨y, z, rfl, hr, hs⟩
  · rintro (⟨y, z, rfl, hr, hs⟩ | ⟨hr, hs⟩)
    · exact .seq (x := a :: y) hr hs
    · exact .seq (x := []) hr hs

theorem matches_star_cons {r : Regex α} {a : α} {x : List α} :
    Matches (star r) (a :: x) ↔ ∃ y z, x = y ++ z ∧ Matches r (a :: y) ∧ Matches (star r) z := by
  constructor
  · intro h
    generalize hs : star r = s at h
    generalize hw : a :: x = w at h
    induction h with
    | epsilon | one | seq | left | right => cases hs
    | done => cases hw
    | @more r' y z hr hz _ ih =>
      cases hs
      obtain _ | ⟨b, y⟩ := y
      · exact ih rfl hw
      · obtain ⟨rfl, rfl⟩ := List.cons.inj hw
        exact ⟨y, z, rfl, hr, hz⟩
  · rintro ⟨y, z, rfl, hr, hz⟩
    exact .more (x := a :: y) hr hz

theorem matches_deriv (a : α) (r : Regex α) (x : List α) : Matches (r.deriv a) x ↔ Matches r (a :: x) := by
  induction r generalizing x with
  | empty => exact iff_of_false (matches_empty x) (matches_empty _)
  | epsilon => exact iff_of_false (matches_empty x) (fun h => by cases h)
  | one p =>
    rw [deriv]
    split
    case isTrue hp =>
      constructor
      · intro h
        cases h
        exact .one hp
      · intro h
        cases h
        exact .epsilon
    case isFalse hp =>
      refine iff_of_false (matches_empty x) (fun h => ?_)
      cases h with
      | one h => exact hp h
  | seq r s ihr ihs =>
    have hleft : Matches (mkSeq (r.deriv a) s) x ↔ ∃ y z, x = y ++ z ∧ Matches r (a :: y) ∧ Matches s z := by
      rw [matches_mkSeq]
      constructor
      · intro h
        cases h with
        | @seq _ _ y z hr hs => exact ⟨y, z, rfl, (ihr y).mp hr, hs⟩
      · rintro ⟨y, z, rfl, hr, hs⟩
        exact .seq ((ihr y).mpr hr) hs
    rw [matches_seq_cons, ← nullable_iff, ← ihs, ← hleft, deriv]
    split
    case isTrue hn => rw [matches_mkAlt, and_iff_right hn]
    case isFalse hn => rw [or_iff_left (fun h => hn h.1)]
  | alt r s ihr ihs =>
    rw [deriv, matches_mkAlt, ihr, ihs]
    constructor
    · rintro (h | h)
      · exact .left h
      · exact .right h
    · intro h
      cases h with
      | left h => exact .inl h
      | right h => exact .inr h
  | star r ih =>
    rw [deriv, matches_mkSeq, matches_star_cons]
    constructor
    · intro h
      cases h with
      | @seq _ _ y z hr hs => exact ⟨y, z, rfl, (ih y).mp hr, hs⟩
    · rintro ⟨y, z, rfl, hr, hs⟩
      exact .seq ((ih y).mpr hr) hs

/-- The length of the longest prefix of the input that `r` matches. -/
def longest (r : Regex α) : List α → Option Nat
  | [] => if r.nullable then some 0 else none
  | a :: input =>
    if r.isEmpty then none
    else
      match (r.deriv a).longest input with
      | some n => some (n + 1)
      | none => if r.nullable then some 0 else none

theorem longest_none {r : Regex α} {input : List α} (h : r.longest input = none) (n : Nat) :
    ¬ Matches r (input.take n) := by
  induction input generalizing r n with
  | nil =>
    rw [List.take_nil, ← nullable_iff]
    simpa [longest] using h
  | cons a input ih =>
    unfold longest at h
    split at h
    case isTrue hempty =>
      rw [(isEmpty_iff r).mp hempty]
      exact matches_empty _
    case isFalse =>
      split at h
      case h_1 => cases h
      case h_2 hnone =>
        cases n with
        | zero =>
          rw [List.take_zero, ← nullable_iff]
          simpa using h
        | succ n =>
          rw [List.take_succ_cons, ← matches_deriv]
          exact ih hnone n

/-- `longest` is the greatest length of a prefix that `r` matches. -/
theorem longest_some {r : Regex α} {input : List α} {n : Nat} (h : r.longest input = some n) :
    n ≤ input.length ∧ Matches r (input.take n) ∧ ∀ m ≤ input.length, Matches r (input.take m) → m ≤ n := by
  induction input generalizing r n with
  | nil =>
    unfold longest at h
    split at h
    case isFalse => cases h
    case isTrue hn =>
      cases h
      exact ⟨le_refl 0, (nullable_iff r).mp hn, fun m hm _ => hm⟩
  | cons a input ih =>
    unfold longest at h
    split at h
    case isTrue => cases h
    case isFalse =>
      split at h
      case h_1 k hk =>
        cases h
        obtain ⟨hlen, hmatch, hmax⟩ := ih hk
        refine ⟨by simpa using hlen, by rwa [List.take_succ_cons, ← matches_deriv], fun m hm hmatch' => ?_⟩
        cases m with
        | zero => exact Nat.zero_le _
        | succ m =>
          rw [List.take_succ_cons, ← matches_deriv] at hmatch'
          exact Nat.succ_le_succ (hmax m (by simpa using hm) hmatch')
      case h_2 hnone =>
        split at h
        case isFalse => cases h
        case isTrue hn =>
          cases h
          refine ⟨Nat.zero_le _, (nullable_iff r).mp hn, fun m _ hmatch => ?_⟩
          cases m with
          | zero => exact le_refl 0
          | succ m =>
            rw [List.take_succ_cons, ← matches_deriv] at hmatch
            exact (longest_none hnone m hmatch).elim

theorem longest_eq {r : Regex α} {input : List α} {n : Nat} (hn : n ≤ input.length) (hmatch : Matches r (input.take n))
    (hmax : ∀ m ≤ input.length, Matches r (input.take m) → m ≤ n) : r.longest input = some n := by
  cases h : r.longest input with
  | none => exact (longest_none h n hmatch).elim
  | some k =>
    obtain ⟨hk, hmatchk, hmaxk⟩ := longest_some h
    exact congrArg some (le_antisymm (hmax k hk hmatchk) (hmaxk n hn hmatch))

theorem longest_eq_none {r : Regex α} {input : List α} (h : ∀ n ≤ input.length, ¬ Matches r (input.take n)) :
    r.longest input = none := by
  cases hlong : r.longest input with
  | none => rfl
  | some k =>
    obtain ⟨hk, hmatch, -⟩ := longest_some hlong
    exact (h k hk hmatch).elim

theorem longest_cons_of_deriv {r : Regex α} {a : α} (h : (r.deriv a).isEmpty = true) (hnull : r.nullable = false)
    (input : List α) : r.longest (a :: input) = none := by
  apply longest_eq_none
  intro n _ hmatch
  cases n with
  | zero =>
    rw [List.take_zero, ← nullable_iff, hnull] at hmatch
    cases hmatch
  | succ n =>
    rw [List.take_succ_cons, ← matches_deriv, (isEmpty_iff _).mp h] at hmatch
    exact matches_empty _ hmatch

def isEpsilon : Regex α → Bool
  | epsilon => true
  | _ => false

theorem longest_cons_of_epsilon {r : Regex α} {a : α} (h : (r.deriv a).isEpsilon = true) (input : List α) :
    r.longest (a :: input) = some 1 := by
  have hderiv : r.deriv a = epsilon := by
    cases hr : r.deriv a with
    | epsilon => rfl
    | _ =>
      rw [hr] at h
      cases h
  refine longest_eq (by simp) ?_ fun m hm hmatch => ?_
  · rw [List.take_succ_cons, ← matches_deriv, hderiv]
    exact .epsilon
  · cases m with
    | zero => exact Nat.zero_le 1
    | succ m =>
      rw [List.take_succ_cons, ← matches_deriv, hderiv] at hmatch
      have hnil : input.take m = [] := by
        generalize input.take m = x at hmatch
        cases hmatch
        rfl
      have hlen := congrArg List.length hnil
      rw [List.length_take, min_eq_left (by simpa using hm)] at hlen
      rw [hlen]
      rfl

section Star

variable {r s : Regex α} {x y : List α}

theorem matches_alt : Matches (alt r s) x ↔ Matches r x ∨ Matches s x := by
  constructor
  · intro h
    cases h with
    | left h => exact .inl h
    | right h => exact .inr h
  · rintro (h | h)
    · exact .left h
    · exact .right h

theorem matches_seq : Matches (seq r s) x ↔ ∃ y z, x = y ++ z ∧ Matches r y ∧ Matches s z := by
  constructor
  · intro h
    cases h with
    | @seq _ _ y z hr hs => exact ⟨y, z, rfl, hr, hs⟩
  · rintro ⟨y, z, rfl, hr, hs⟩
    exact .seq hr hs

theorem matches_one {p : α → Bool} : Matches (one p) x ↔ ∃ a, x = [a] ∧ p a = true := by
  constructor
  · intro h
    cases h with
    | one h => exact ⟨_, rfl, h⟩
  · rintro ⟨a, rfl, h⟩
    exact .one h

/-- What holds of nothing and of one match before what it holds of holds of the repetition. -/
theorem star_induction {P : List α → Prop} (hnil : P [])
    (hmore : ∀ x y, Matches r x → Matches (star r) y → P y → P (x ++ y))
    (h : Matches (star r) x) : P x := by
  generalize hs : star r = s at h
  induction h with
  | epsilon | one | seq | left | right => cases hs
  | done => exact hnil
  | more hr hy _ ih =>
    cases hs
    exact hmore _ _ hr hy (ih rfl)

theorem star_append (hx : Matches (star r) x) (hy : Matches (star r) y) : Matches (star r) (x ++ y) := by
  refine star_induction (P := fun x => Matches (star r) (x ++ y)) hy (fun u v hu _ ih => ?_) hx
  rw [List.append_assoc]
  exact .more hu ih

theorem star_single (h : Matches r x) : Matches (star r) x := by
  have hone : Matches (star r) (x ++ []) := .more h .done
  rwa [List.append_nil] at hone

theorem star_of_forall (h : ∀ a ∈ x, Matches r [a]) : Matches (star r) x := by
  induction x with
  | nil => exact .done
  | cons a x ih =>
    exact .more (h a List.mem_cons_self) (ih fun b hb => h b (List.mem_cons_of_mem a hb))

theorem star_mono (hle : ∀ x, Matches r x → Matches s x) (h : Matches (star r) x) : Matches (star s) x :=
  star_induction (P := Matches (star s)) .done (fun _ _ hx _ ih => .more (hle _ hx) ih) h

theorem not_mem_star {a : α} (hr : ∀ x, Matches r x → a ∉ x) (h : Matches (star r) x) : a ∉ x := by
  refine star_induction (P := fun x => a ∉ x) List.not_mem_nil (fun u v hu _ ih hmem => ?_) h
  obtain hmem | hmem := List.mem_append.mp hmem
  · exact hr u hu hmem
  · exact ih hmem

/-- The repetition that holds a letter, and where in it that letter stands. -/
theorem star_around {c : α} (h : Matches (star r) (x ++ c :: y)) :
    ∃ x₁ u v y₁, x = x₁ ++ u ∧ y = v ++ y₁ ∧ Matches r (u ++ c :: v) ∧ Matches (star r) y₁ := by
  refine star_induction (P := fun w => ∀ x y, w = x ++ c :: y →
    ∃ x₁ u v y₁, x = x₁ ++ u ∧ y = v ++ y₁ ∧ Matches r (u ++ c :: v) ∧ Matches (star r) y₁) ?_ ?_ h x y rfl
  · intro x y hnil
    exact absurd hnil.symm (List.append_ne_nil_of_right_ne_nil x (List.cons_ne_nil c y))
  · intro u w hu hw ih x y heq
    obtain ⟨z, rfl, hz⟩ | ⟨z, rfl, hz⟩ := List.append_eq_append_iff.mp heq
    · obtain ⟨x₁, u', v, y₁, rfl, rfl, hr, hy₁⟩ := ih z y hz
      exact ⟨u ++ x₁, u', v, y₁, (List.append_assoc _ _ _).symm, rfl, hr, hy₁⟩
    · cases z with
      | nil =>
        rw [List.nil_append] at hz
        obtain ⟨x₁, u', v, y₁, hx, rfl, hr, hy₁⟩ := ih [] y hz.symm
        obtain ⟨rfl, rfl⟩ := List.append_eq_nil_iff.mp hx.symm
        exact ⟨x, [], v, y₁, (List.append_nil x).symm, rfl, hr, hy₁⟩
      | cons d z =>
        rw [List.cons_append, List.cons.injEq] at hz
        obtain ⟨rfl, rfl⟩ := hz
        exact ⟨[], x, z, w, rfl, rfl, hu, hw⟩

end Star

def minLength : Regex α → Nat
  | empty | epsilon | star _ => 0
  | one _ => 1
  | seq r s => r.minLength + s.minLength
  | alt r s => min r.minLength s.minLength

theorem Matches.minLength_le {r : Regex α} {x : List α} (h : Matches r x) : r.minLength ≤ x.length := by
  induction h with
  | epsilon | done | more => exact Nat.zero_le _
  | one => exact le_refl 1
  | seq _ _ ihr ihs =>
    rw [List.length_append]
    exact Nat.add_le_add ihr ihs
  | left _ ih => exact le_trans (min_le_left _ _) ih
  | right _ ih => exact le_trans (min_le_right _ _) ih

theorem minLength_le_longest {r : Regex α} {input : List α} {n : Nat} (h : r.longest input = some n) :
    r.minLength ≤ n := by
  obtain ⟨-, hmatch, -⟩ := longest_some h
  have := hmatch.minLength_le
  rw [List.length_take] at this
  exact le_trans this (min_le_left _ _)

end Regex

/-- A rule of a scanner: its pattern, how many letters of it are trailing context, and what it
does. -/
structure ScanRule (α β : Type) where
  pattern : Regex α
  trailing : Nat
  action : β

namespace ScanRule

variable {α β : Type}

/-- The longer of two matches, the first one when they are equal. -/
def better (input : List α) (best : Option (Nat × ScanRule α β)) (rule : ScanRule α β) :
    Option (Nat × ScanRule α β) :=
  match rule.pattern.longest input, best with
  | none, _ => best
  | some n, none => some (n, rule)
  | some n, some (m, other) => if m < n then some (n, rule) else some (m, other)

/-- The first of the rules with the longest match, and the length of that match. -/
def scan (rules : List (ScanRule α β)) (input : List α) : Option (Nat × ScanRule α β) :=
  rules.foldl (better input) none

theorem mem_of_foldl_better {rules : List (ScanRule α β)} {input : List α} {best : Option (Nat × ScanRule α β)}
    {n : Nat} {rule : ScanRule α β} (h : rules.foldl (better input) best = some (n, rule)) :
    best = some (n, rule) ∨ rule ∈ rules ∧ rule.pattern.longest input = some n := by
  induction rules generalizing best with
  | nil => exact .inl h
  | cons r rules ih =>
    obtain hb | ⟨hmem, hlong⟩ := ih h
    · unfold better at hb
      split at hb
      case h_1 => exact .inl hb
      case h_2 k _ hk =>
        cases hb
        exact .inr ⟨List.mem_cons_self, hk⟩
      case h_3 k m other hk =>
        split at hb
        case isTrue =>
          cases hb
          exact .inr ⟨List.mem_cons_self, hk⟩
        case isFalse => exact .inl hb
    · exact .inr ⟨List.mem_cons_of_mem _ hmem, hlong⟩

theorem scan_some {rules : List (ScanRule α β)} {input : List α} {n : Nat} {rule : ScanRule α β}
    (h : scan rules input = some (n, rule)) : rule ∈ rules ∧ rule.pattern.longest input = some n :=
  (mem_of_foldl_better h).resolve_left (fun hnone => by cases hnone)

theorem better_ge {input : List α} {m : Nat} {other rule : ScanRule α β} :
    ∃ n r, better input (some (m, other)) rule = some (n, r) ∧ m ≤ n := by
  unfold better
  split
  case h_1 => exact ⟨m, other, rfl, le_rfl⟩
  case h_2 hnone => cases hnone
  case h_3 n k other' _ hbest =>
    cases hbest
    split
    case isTrue hlt => exact ⟨n, rule, rfl, hlt.le⟩
    case isFalse => exact ⟨m, other, rfl, le_rfl⟩

theorem better_ge_longest {input : List α} {best : Option (Nat × ScanRule α β)} {rule : ScanRule α β} {m : Nat}
    (h : rule.pattern.longest input = some m) : ∃ n r, better input best rule = some (n, r) ∧ m ≤ n := by
  unfold better
  rw [h]
  cases best with
  | none => exact ⟨m, rule, rfl, le_rfl⟩
  | some p =>
    dsimp only
    split
    case isTrue => exact ⟨m, rule, rfl, le_rfl⟩
    case isFalse hge => exact ⟨p.1, p.2, rfl, Nat.le_of_not_lt hge⟩

theorem foldl_better_ge (rules : List (ScanRule α β)) {input : List α} {m : Nat} {other : ScanRule α β} :
    ∃ n r, rules.foldl (better input) (some (m, other)) = some (n, r) ∧ m ≤ n := by
  induction rules generalizing m other with
  | nil => exact ⟨m, other, rfl, le_rfl⟩
  | cons rule rules ih =>
    obtain ⟨k, r, hstep, hle⟩ := @better_ge _ _ input m other rule
    obtain ⟨n, r', hrest, hle'⟩ := @ih k r
    exact ⟨n, r', by rw [List.foldl_cons, hstep, hrest], hle.trans hle'⟩

/-- The length of the match of a scanner is the greatest one of its rules. -/
theorem longest_le_scan {rules : List (ScanRule α β)} {input : List α} {n m : Nat} {rule other : ScanRule α β}
    (h : scan rules input = some (n, rule)) (hmem : other ∈ rules) (hlong : other.pattern.longest input = some m) :
    m ≤ n := by
  obtain ⟨before, after, rfl⟩ := List.append_of_mem hmem
  unfold scan at h
  rw [List.foldl_append, List.foldl_cons] at h
  obtain ⟨k, r, hstep, hle⟩ := @better_ge_longest _ _ input (before.foldl (better input) none) other m hlong
  rw [hstep] at h
  obtain ⟨n', r', hrest, hle'⟩ := @foldl_better_ge _ _ after input k r
  cases h.symm.trans hrest
  exact hle.trans hle'

theorem scan_concat {rules : List (ScanRule α β)} {input : List α} {n : Nat} {rule last : ScanRule α β}
    (h : scan rules input = some (n, rule)) (hlast : ∀ m, last.pattern.longest input = some m → m ≤ n) :
    scan (rules ++ [last]) input = some (n, rule) := by
  have hbetter : better input (some (n, rule)) last = some (n, rule) := by
    unfold better
    split
    case h_1 => rfl
    case h_2 hnone => cases hnone
    case h_3 m k other hlong hbest =>
      cases hbest
      exact if_neg (Nat.not_lt.mpr (hlast m hlong))
  unfold scan at h ⊢
  rw [List.foldl_append, h, List.foldl_cons, List.foldl_nil, hbetter]

theorem isSome_foldl_better {rules : List (ScanRule α β)} {input : List α} {best : Option (Nat × ScanRule α β)}
    (h : best.isSome ∨ ∃ rule ∈ rules, (rule.pattern.longest input).isSome) :
    (rules.foldl (better input) best).isSome := by
  induction rules generalizing best with
  | nil =>
    obtain h | ⟨rule, hmem, -⟩ := h
    · exact h
    · cases hmem
  | cons r rules ih =>
    refine ih ?_
    unfold better
    obtain h | ⟨rule, hmem, hrule⟩ := h
    · left
      split
      case h_1 => exact h
      case h_2 => rfl
      case h_3 => split <;> rfl
    · obtain rfl | hmem := List.mem_cons.mp hmem
      · left
        split
        case h_1 hnone => simp [hnone] at hrule
        case h_2 => rfl
        case h_3 => split <;> rfl
      · exact .inr ⟨rule, hmem, hrule⟩

end ScanRule

end LevelPgServer
