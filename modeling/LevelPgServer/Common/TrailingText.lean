import LevelPgServer.Common.MetaConfig

namespace LevelPgServer.MetaConfigLoader

open Captures
open SqlParser (isDigit isSpace)

section Attribute

/-- The value behind the equals sign, and the text behind the value; where there is no value, the last
of the blanks stands for it. -/
def valueOf (rest : Bytes) : Option (Bytes × Bytes) :=
  let text := rest.dropWhile isSpace
  if text.takeWhile notEquals ≠ [] then some (text.takeWhile notEquals, text.dropWhile notEquals)
  else (rest.takeWhile isSpace).getLast?.map fun c => ([c], text)

/-- The attribute that starts a text: its key, its value and the text behind it. -/
def attributeAt (s : Bytes) : Option (Bytes × Bytes × Bytes) :=
  match (s.dropWhile keyChar).dropWhile isSpace with
  | [] => none
  | c :: rest => if c = 61 ∧ s.takeWhile keyChar ≠ [] then (valueOf rest).map fun r => (s.takeWhile keyChar, r) else none

def setting : Bytes → Option (Bytes × Bytes × Bytes)
  | [] => none
  | c :: s => (attributeAt (c :: s)).or (setting s)

theorem head_notEquals {s : Bytes} {c : UInt8} (h : (s.dropWhile notEquals).head? = some c) : c = 61 := by
  simpa [notEquals] using head_dropWhile h

theorem matchAt_value (s : Bytes) :
    matchAt [.run notEquals 1 true, .run isSpace 0 false] s =
      if s.takeWhile notEquals ≠ [] then some ([s.takeWhile notEquals], s.dropWhile notEquals) else none := by
  have hspace : ∀ t : Bytes, t.head? = some 61 ∨ t = [] → matchAt [.run isSpace 0 false] t = some ([], t) := by
    intro t ht
    have hhead : ∀ c, t.head? = some c → isSpace c = false := by
      intro c hc
      obtain ht | rfl := ht
      · rw [ht] at hc
        cases hc
        rfl
      · cases hc
    rw [matchAt, (takeWhile_of_head hhead).1]
    rfl
  have hrest : (s.dropWhile notEquals).head? = some 61 ∨ s.dropWhile notEquals = [] := by
    cases h : s.dropWhile notEquals with
    | nil => exact .inr rfl
    | cons c t =>
      have := @head_notEquals s c (by rw [h]; rfl)
      exact .inl (by rw [this]; rfl)
  rw [matchAt]
  cases hn : (s.takeWhile notEquals).length with
  | zero => simp [longestFirst, List.length_eq_zero_iff.mp hn]
  | succ n =>
    have hne : s.takeWhile notEquals ≠ [] := by
      intro h
      rw [h] at hn
      cases hn
    rw [longestFirst, if_neg (by omega), if_pos hne, ← hn, drop_takeWhile, take_takeWhile, hspace _ hrest]
    rfl

theorem matchAt_spaceValue (s : Bytes) :
    matchAt [.run isSpace 0 false, .run notEquals 1 true, .run isSpace 0 false] s =
      (valueOf s).map fun r => ([r.1], r.2) := by
  have hskip : ∀ k, (matchAt [.run notEquals 1 true, .run isSpace 0 false] (s.drop k)).map
      (fun r => (if (false : Bool) = true then s.take k :: r.1 else r.1, r.2)) =
      if (s.drop k).takeWhile notEquals ≠ [] then
        some ([(s.drop k).takeWhile notEquals], (s.drop k).dropWhile notEquals) else none := by
    intro k
    rw [matchAt_value]
    by_cases h : (s.drop k).takeWhile notEquals ≠ []
    · rw [if_pos h]
      rfl
    · rw [if_neg h]
      rfl
  rw [matchAt, longestFirst_congr fun k _ => hskip k, valueOf]
  by_cases htext : (s.dropWhile isSpace).takeWhile notEquals ≠ []
  · rw [if_pos htext]
    refine longestFirst_of_some ?_ (Nat.zero_le _)
    rw [drop_takeWhile, if_pos htext]
  · rw [if_neg htext]
    have hhead : (s.dropWhile isSpace).dropWhile notEquals = s.dropWhile isSpace := by
      have h := @List.takeWhile_append_dropWhile _ notEquals (s.dropWhile isSpace)
      rwa [not_not.mp htext] at h
    obtain hnil | ⟨w, c, hw⟩ := List.eq_nil_or_concat (s.takeWhile isSpace)
    · have hs : s.dropWhile isSpace = s := by
        have h := @List.takeWhile_append_dropWhile _ isSpace s
        rwa [hnil] at h
      rw [hs] at htext
      rw [hnil, List.length_nil, longestFirst, if_pos rfl, List.drop_zero, if_neg htext]
      rfl
    · have hsplit : s = w ++ c :: s.dropWhile isSpace := by
        have h := @List.takeWhile_append_dropWhile _ isSpace s
        rw [hw] at h
        simpa using h.symm
      have hdrop : s.drop w.length = c :: s.dropWhile isSpace := by
        conv_lhs => rw [hsplit]
        rw [List.drop_left]
      have hc : notEquals c = true := by
        have hspace : isSpace c = true := List.mem_takeWhile_imp (p := isSpace) (l := s) (by simp [hw])
        rw [notEquals, bne_iff_ne]
        rintro rfl
        cases hspace
      rw [hw, List.concat_eq_append, List.length_append, List.length_singleton, longestFirst, if_neg (by omega)]
      have hlast : s.drop (w.length + 1) = s.dropWhile isSpace := by
        rw [← List.tail_drop, hdrop]
        rfl
      rw [hlast, if_neg htext, Option.none_or, List.getLast?_append, List.getLast?_singleton, Option.some_or,
        Option.map_some, Option.map_some]
      refine longestFirst_of_some ?_ (Nat.zero_le _)
      rw [hdrop]
      simp [hc, not_not.mp htext, hhead]

theorem matchAt_attributeRegex (s : Bytes) :
    matchAt attributeRegex s = (attributeAt s).map fun r => ([r.1, r.2.1], r.2.2) := by
  have hequals : ∀ c t, c ≠ 61 → matchAt [.one (· == 61), .run isSpace 0 false, .run notEquals 1 true,
      .run isSpace 0 false] (c :: t) = none := by
    intro c t hc
    simp [matchAt, hc]
  have hspace : ∀ t, matchAt [.run isSpace 0 false, .one (· == 61), .run isSpace 0 false, .run notEquals 1 true,
      .run isSpace 0 false] t = matchAt [.one (· == 61), .run isSpace 0 false, .run notEquals 1 true,
      .run isSpace 0 false] (t.dropWhile isSpace) := by
    intro t
    rw [matchAt_run, if_pos (Nat.zero_le _)]
    · cases matchAt _ (t.dropWhile isSpace) <;> rfl
    · intro c u hc
      refine hequals c u ?_
      rintro rfl
      cases hc
  rw [attributeRegex, matchAt_run]
  · rw [hspace, attributeAt]
    cases h : (s.dropWhile keyChar).dropWhile isSpace with
    | nil => simp [matchAt]
    | cons c rest =>
      dsimp only
      by_cases hc : c = 61
      · subst hc
        have hskip : matchAt [.one (· == 61), .run isSpace 0 false, .run notEquals 1 true, .run isSpace 0 false]
            (61 :: rest) = (valueOf rest).map fun r => ([r.1], r.2) := matchAt_spaceValue rest
        rw [hskip]
        by_cases hkey : s.takeWhile keyChar = []
        · simp [hkey]
        · rw [if_pos (Nat.succ_le_of_lt (List.length_pos_iff.mpr hkey)), if_pos ⟨rfl, hkey⟩]
          cases valueOf rest <;> rfl
      · have hne : ¬ (c = 61 ∧ s.takeWhile keyChar ≠ []) := fun h => hc h.1
        rw [hequals c rest hc, if_neg hne]
        simp
  · intro c t hc
    obtain ⟨h1, h2⟩ : c ≠ 61 ∧ isSpace c = false := by simpa [keyChar] using hc
    rw [hspace, List.dropWhile_cons_of_neg (by simp [h2]), hequals c t h1]

theorem search_attributeRegex (s : Bytes) :
    search attributeRegex s = (setting s).map fun r => ([r.1, r.2.1], r.2.2) := by
  induction s with
  | nil => exact matchAt_attributeRegex []
  | cons c s ih =>
    rw [search, setting, matchAt_attributeRegex, ih]
    cases attributeAt (c :: s) <;> rfl

end Attribute

section Blanks

/-- Blanks that are added to a line: spaces and tabs, at least one. -/
structure Blanks (bs : Bytes) : Prop where
  ne_nil : bs ≠ []
  blank : ∀ c ∈ bs, c = 32 ∨ c = 9

variable {bs : Bytes}

theorem Blanks.isSpace (hb : Blanks bs) : ∀ c ∈ bs, SqlParser.isSpace c = true := by
  intro c hc
  obtain rfl | rfl := hb.blank c hc
  · rfl
  · rfl

theorem Blanks.keyChar (hb : Blanks bs) : ∀ c ∈ bs, keyChar c = false := by
  intro c hc
  obtain rfl | rfl := hb.blank c hc
  · rfl
  · rfl

theorem Blanks.notEquals (hb : Blanks bs) : ∀ c ∈ bs, notEquals c = true := by
  intro c hc
  obtain rfl | rfl := hb.blank c hc
  · rfl
  · rfl

/-- The value of an attribute after blanks have been added behind it. -/
def extendValue (v bs : Bytes) : Bytes := if v.all isSpace then bs.getLast?.toList else v ++ bs

theorem dropWhile_append_of_ne_nil {p : UInt8 → Bool} {s : Bytes} (h : s.dropWhile p ≠ []) (t : Bytes) :
    (s ++ t).dropWhile p = s.dropWhile p ++ t ∧ (s ++ t).takeWhile p = s.takeWhile p := by
  induction s with
  | nil => exact absurd rfl h
  | cons c s ih =>
    rw [List.cons_append, List.dropWhile_cons, List.takeWhile_cons, List.dropWhile_cons, List.takeWhile_cons]
    rw [List.dropWhile_cons] at h
    split_ifs at h ⊢ with hc
    · exact ⟨(ih h).1, by rw [(ih h).2]⟩
    · exact ⟨rfl, rfl⟩

theorem dropWhile_append_of_nil {p : UInt8 → Bool} {s t : Bytes} (h : s.dropWhile p = []) (ht : ∀ c ∈ t, p c = true) :
    (s ++ t).dropWhile p = [] ∧ (s ++ t).takeWhile p = s ++ t := by
  have hall : ∀ c ∈ s ++ t, p c = true := by
    intro c hc
    obtain hc | hc := List.mem_append.mp hc
    · exact List.dropWhile_eq_nil_iff.mp h c hc
    · exact ht c hc
  exact ⟨List.dropWhile_eq_nil_iff.mpr hall, List.takeWhile_eq_self_iff.mpr hall⟩

theorem valueOf_append (hb : Blanks bs) (rest : Bytes) :
    (valueOf (rest ++ bs)).map Prod.fst =
      match valueOf rest with
      | some (v, behind) => some (if behind = [] then extendValue v bs else v)
      | none => if rest = [] then some bs.getLast?.toList else none := by
  have hlast : bs.getLast? = some (bs.getLast hb.ne_nil) := List.getLast?_eq_some_getLast hb.ne_nil
  by_cases hd : rest.dropWhile isSpace = []
  · obtain ⟨h1, h2⟩ := dropWhile_append_of_nil hd hb.isSpace
    have h3 : rest.takeWhile isSpace = rest := by
      have h := @List.takeWhile_append_dropWhile _ isSpace rest
      rwa [hd, List.append_nil] at h
    have hleft : valueOf (rest ++ bs) = some (bs.getLast?.toList, []) := by
      simp [valueOf, h1, h2, hlast]
    rw [hleft]
    by_cases hr : rest = []
    · subst hr
      rfl
    · obtain ⟨c, hc⟩ : ∃ c, rest.getLast? = some c := ⟨_, List.getLast?_eq_some_getLast hr⟩
      have hright : valueOf rest = some ([c], []) := by simp [valueOf, hd, h3, hc]
      have hspace : isSpace c = true := List.dropWhile_eq_nil_iff.mp hd c (List.mem_of_getLast? hc)
      simp [hright, extendValue, hspace]
  · obtain ⟨h1, h2⟩ := dropWhile_append_of_ne_nil hd bs
    have hne : rest ≠ [] := by
      rintro rfl
      exact hd rfl
    by_cases hv : (rest.dropWhile isSpace).takeWhile notEquals = []
    · have hsame : (rest.dropWhile isSpace).dropWhile notEquals = rest.dropWhile isSpace := by
        have h := @List.takeWhile_append_dropWhile _ notEquals (rest.dropWhile isSpace)
        rwa [hv] at h
      have hv' : (rest.dropWhile isSpace ++ bs).takeWhile notEquals = [] := by
        rw [(dropWhile_append_of_ne_nil (by rwa [hsame]) bs).2, hv]
      simp only [valueOf, h1, h2, hv, hv', ne_eq, not_true_eq_false, if_false]
      cases (rest.takeWhile isSpace).getLast? with
      | none => simp [hne]
      | some c => simp [hd]
    · by_cases hbehind : (rest.dropWhile isSpace).dropWhile notEquals = []
      · have hwhole : (rest.dropWhile isSpace).takeWhile notEquals = rest.dropWhile isSpace := by
          have h := @List.takeWhile_append_dropWhile _ notEquals (rest.dropWhile isSpace)
          rwa [hbehind, List.append_nil] at h
        have hspace : (rest.dropWhile isSpace).all isSpace = false := by
          cases htext : rest.dropWhile isSpace with
          | nil => exact absurd htext hd
          | cons c t => simp [@head_dropWhile _ isSpace rest c (by rw [htext]; rfl)]
        have hv' := (dropWhile_append_of_nil hbehind hb.notEquals).2
        simp [valueOf, h1, hv', hwhole, hd, hbehind, extendValue, hspace]
      · have hv' := (dropWhile_append_of_ne_nil hbehind bs).2
        simp [valueOf, h1, hv', hv, hbehind]

def Opens (s : Bytes) : Prop := s.takeWhile keyChar ≠ [] ∧ (s.dropWhile keyChar).dropWhile isSpace = [61]

instance (s : Bytes) : Decidable (Opens s) := inferInstanceAs (Decidable (_ ∧ _))

def emptyKey : Bytes → Option Bytes
  | [] => none
  | c :: s => if Opens (c :: s) then some ((c :: s).takeWhile keyChar) else emptyKey s

theorem attributeAt_append (hb : Blanks bs) (s : Bytes) :
    (attributeAt (s ++ bs)).map (fun r => (r.1, r.2.1)) =
      match attributeAt s with
      | some (k, v, behind) => some (k, if behind = [] then extendValue v bs else v)
      | none => if Opens s then some (s.takeWhile keyChar, bs.getLast?.toList) else none := by
  have hkey : (s ++ bs).takeWhile keyChar = s.takeWhile keyChar := takeWhile_append_of_rejects hb.keyChar
  have htail : (s ++ bs).dropWhile keyChar = s.dropWhile keyChar ++ bs := by
    rw [← drop_takeWhile, hkey, List.drop_append_of_le_length (List.takeWhile_prefix _).length_le, drop_takeWhile]
  cases htext : (s.dropWhile keyChar).dropWhile isSpace with
  | nil =>
    have h := (dropWhile_append_of_nil htext hb.isSpace).1
    simp [attributeAt, htail, h, htext, Opens]
  | cons c rest =>
    have h := (dropWhile_append_of_ne_nil (by rw [htext]; simp) bs).1
    rw [htext, List.cons_append] at h
    by_cases hc : c = 61 ∧ s.takeWhile keyChar ≠ []
    · obtain ⟨rfl, hne⟩ := hc
      have hvalue := valueOf_append hb rest
      have hopens : Opens s ↔ rest = [] := by simp [Opens, htext, hne]
      simp only [attributeAt, htail, h, htext, hkey, hne, ne_eq, not_false_eq_true, and_self, if_true, hopens]
      have hmap : ((valueOf (rest ++ bs)).map fun r => (s.takeWhile keyChar, r)).map (fun r => (r.1, r.2.1)) =
          ((valueOf (rest ++ bs)).map Prod.fst).map fun v => (s.takeWhile keyChar, v) := by
        cases valueOf (rest ++ bs) <;> rfl
      rw [hmap, hvalue]
      cases valueOf rest with
      | none => by_cases hrest : rest = [] <;> simp [hrest]
      | some r => rfl
    · have hopens : ¬ Opens s := by
        rintro ⟨hne, h61⟩
        rw [htext] at h61
        cases h61
        exact hc ⟨rfl, hne⟩
      simp only [attributeAt, htail, h, htext, hkey, if_neg hc, if_neg hopens, Option.map_none]

theorem equals_of_attributeAt {s : Bytes} (h : (attributeAt s).isSome = true) : ∃ x y, s = x ++ 61 :: y ∧ y ≠ [] := by
  rw [attributeAt] at h
  split at h
  · cases h
  · next c rest htext =>
    split_ifs at h with hc
    · obtain ⟨rfl, -⟩ := hc
      refine ⟨s.takeWhile keyChar ++ (s.dropWhile keyChar).takeWhile isSpace, rest, ?_, ?_⟩
      · rw [List.append_assoc, ← htext, List.takeWhile_append_dropWhile, List.takeWhile_append_dropWhile]
      · rintro rfl
        cases h
    · cases h

theorem equals_of_setting {s : Bytes} (h : (setting s).isSome = true) : ∃ x y, s = x ++ 61 :: y ∧ y ≠ [] := by
  induction s with
  | nil => cases h
  | cons c s ih =>
    rw [setting, Option.isSome_or, Bool.or_eq_true] at h
    obtain h | h := h
    · exact equals_of_attributeAt h
    · obtain ⟨x, y, rfl, hy⟩ := ih h
      exact ⟨c :: x, y, rfl, hy⟩

theorem setting_of_opens {s : Bytes} (h : Opens s) : setting s = none := by
  obtain ⟨-, h61⟩ := h
  by_contra hne
  obtain ⟨x, y, hs, hy⟩ := equals_of_setting (Option.isSome_iff_ne_none.mpr hne)
  have hsplit : s = (s.takeWhile keyChar ++ (s.dropWhile keyChar).takeWhile isSpace) ++ [61] := by
    rw [List.append_assoc, ← h61, List.takeWhile_append_dropWhile, List.takeWhile_append_dropWhile]
  have hfront : (61 : UInt8) ∉ s.takeWhile keyChar ++ (s.dropWhile keyChar).takeWhile isSpace := by
    intro hmem
    obtain hmem | hmem := List.mem_append.mp hmem
    · exact absurd (List.mem_takeWhile_imp hmem) (by decide)
    · exact absurd (List.mem_takeWhile_imp hmem) (by decide)
  obtain ⟨w, c, rfl⟩ := List.eq_nil_or_concat y |>.resolve_left hy
  have hwhole : (x ++ 61 :: w) ++ [c] = (s.takeWhile keyChar ++ (s.dropWhile keyChar).takeWhile isSpace) ++ [61] := by
    rw [← hsplit, hs, List.concat_eq_append, List.append_assoc, List.cons_append]
  rw [← (List.append_inj' hwhole rfl).1] at hfront
  exact hfront (by simp)

theorem setting_append (hb : Blanks bs) (s : Bytes) :
    (setting (s ++ bs)).map (fun r => (r.1, r.2.1)) =
      match setting s with
      | some (k, v, behind) => some (k, if behind = [] then extendValue v bs else v)
      | none => (emptyKey s).map fun k => (k, bs.getLast?.toList) := by
  have hor : ∀ x y : Option (Bytes × Bytes × Bytes), (x.or y).map (fun r => (r.1, r.2.1)) =
      (x.map fun r => (r.1, r.2.1)).or (y.map fun r => (r.1, r.2.1)) := by
    intro x y
    cases x <;> rfl
  induction s with
  | nil =>
    have hnone : setting bs = none := by
      by_contra hne
      obtain ⟨x, y, hs, -⟩ := equals_of_setting (Option.isSome_iff_ne_none.mpr hne)
      have h61 := hb.isSpace 61 (by simp [hs])
      cases h61
    rw [List.nil_append, hnone]
    rfl
  | cons c s ih =>
    rw [List.cons_append, setting, hor, ← List.cons_append, attributeAt_append hb, ih, setting, emptyKey]
    cases hat : attributeAt (c :: s) with
    | some r => rfl
    | none =>
      by_cases ho : Opens (c :: s)
      · have hs := setting_of_opens ho
        rw [setting, hat, Option.none_or] at hs
        simp [ho, hs]
      · simp only [if_neg ho, Option.none_or]

end Blanks

section Values

variable {bs : Bytes} (hb : Blanks bs) (t : TableInfo) (v : Bytes)

theorem extendValue_space {v : Bytes} (h : v.all isSpace = true) (hb : Blanks bs) :
    (extendValue v bs).all isSpace = true := by
  rw [extendValue, if_pos h]
  exact List.all_eq_true.mpr fun c hc => hb.isSpace c (List.mem_of_getLast? (Option.mem_toList.mp hc))

include hb

theorem stol_extendValue : stol (extendValue v bs) = stol v := by
  have hspace : ∀ u : Bytes, u.all isSpace = true → stol u = none := by
    intro u hu
    rw [stol, List.dropWhile_eq_nil_iff.mpr (List.all_eq_true.mp hu)]
    rfl
  by_cases h : v.all isSpace = true
  · rw [hspace _ (extendValue_space h hb), hspace v h]
  · have hdrop : v.dropWhile isSpace ≠ [] := fun hnil => h (List.all_eq_true.mpr (List.dropWhile_eq_nil_iff.mp hnil))
    have hdigit : ∀ c ∈ bs, isDigit c = false := by
      intro c hc
      obtain rfl | rfl := hb.blank c hc
      · rfl
      · rfl
    rw [extendValue, if_neg h, stol, stol, (dropWhile_append_of_ne_nil hdrop bs).1]
    cases hv : v.dropWhile isSpace with
    | nil => exact absurd hv hdrop
    | cons c u =>
      have htake : ∀ w : Bytes, (w ++ bs).takeWhile isDigit = w.takeWhile isDigit :=
        fun w => takeWhile_append_of_rejects hdigit
      have hds : (if (c :: u ++ bs).head? = some 45 ∨ (c :: u ++ bs).head? = some 43 then (c :: u ++ bs).tail
          else c :: u ++ bs).takeWhile isDigit = (if (c :: u).head? = some 45 ∨ (c :: u).head? = some 43
          then (c :: u).tail else c :: u).takeWhile isDigit := by
        by_cases hsign : c = 45 ∨ c = 43
        · rw [if_pos (by simpa using hsign), if_pos (by simpa using hsign)]
          exact htake u
        · rw [if_neg (by simpa using hsign), if_neg (by simpa using hsign)]
          exact htake (c :: u)
      simp only [hds]
      rfl

omit hb in
theorem rejects_space {items : List (Item UInt8)} (hitems : items ∈ [columnRegex, lengthRegex]) {u : Bytes}
    (hu : ∀ c ∈ u, isSpace c = true) : ∀ item ∈ items, ∀ c ∈ u, item.class c = false := by
  intro item hitem c hc
  have hspace := hu c hc
  have hne : ∀ d, isSpace d = false → (c == d) = false := by
    intro d hd
    rw [beq_eq_false_iff_ne]
    rintro rfl
    rw [hspace] at hd
    cases hd
  have hdigit : isDigit c = false := by
    by_contra h
    rw [Bool.not_eq_false] at h
    simp [isDigit, isSpace, UInt8.le_iff_toNat_le, ← UInt8.toNat_inj] at h hspace
    omega
  have hchars : (c == 58) = false ∧ (c == 40) = false ∧ (c == 41) = false := ⟨hne 58 rfl, hne 40 rfl, hne 41 rfl⟩
  fin_cases hitems <;> fin_cases hitem <;> simp [Item.class, nameChar, typeChar, hspace, hdigit, hchars]

omit hb in
theorem search_columnRegex_append (s : Bytes) {u : Bytes} (hu : ∀ c ∈ u, isSpace c = true) :
    search columnRegex (s ++ u) = (search columnRegex s).map fun r => (r.1, r.2 ++ u) :=
  search_append (rejects_space (by simp) hu) rfl

omit hb in
theorem addColumn_space {v : Bytes} (h : v.all isSpace = true) : (addColumn t v).toOption = none := by
  have hnone : search columnRegex v = none := search_columnRegex_append [] (List.all_eq_true.mp h)
  rw [addColumn, hnone]
  rfl

theorem addColumn_extendValue : (addColumn t (extendValue v bs)).toOption = (addColumn t v).toOption := by
  by_cases h : v.all isSpace = true
  · rw [addColumn_space t (extendValue_space h hb), addColumn_space t h]
  · rw [extendValue, if_neg h, addColumn, search_columnRegex_append v hb.isSpace, addColumn]
    have hlength : ∀ rest, matchAt lengthRegex (rest ++ bs) = (matchAt lengthRegex rest).map fun r => (r.1, r.2 ++ bs) :=
      fun rest => matchAt_append (rejects_space (by simp) hb.isSpace)
    cases search columnRegex v with
    | none => rfl
    | some r =>
      obtain ⟨kept, rest⟩ := r
      match kept with
      | [name, sType] =>
        dsimp only [Option.map_some]
        rw [hlength]
        cases getDataType sType with
        | none => rfl
        | some type =>
          cases matchAt lengthRegex rest with
          | none => rfl
          | some r =>
            obtain ⟨kept, rest⟩ := r
            match kept with
            | [] | [_] | _ :: _ :: _ => rfl
      | [] | [_] | _ :: _ :: _ :: _ => rfl

end Values

end LevelPgServer.MetaConfigLoader
