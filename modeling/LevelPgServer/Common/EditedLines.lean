import LevelPgServer.Common.TrailingText
import LevelPgServer.Lib.TwoRuns

namespace LevelPgServer

namespace TableInfo

variable {t t' : TableInfo}

def columnNames (t : TableInfo) : List Bytes := t.columns.map DBColumnInfo.name

theorem findColumn_names (h : t'.columnNames = t.columnNames) (name : Bytes) : t'.findColumn name = t.findColumn name := by
  have hlen : t'.columns.length = t.columns.length := by simpa [columnNames] using congrArg List.length h
  have hget : ∀ i : Nat, t'.columns[i]?.map DBColumnInfo.name = t.columns[i]?.map DBColumnInfo.name := by
    intro i
    rw [← List.getElem?_map, ← List.getElem?_map]
    exact congrArg (fun names : List Bytes => names[i]?) h
  rw [findColumn, findColumn, hlen]
  simp only [hget]

theorem mem_columnNames {name : Bytes} (h : t.findColumn name ≠ none) : name ∈ t.columnNames := by
  obtain ⟨i, hi⟩ := Option.ne_none_iff_exists'.mp h
  rw [findColumn, List.findRev?_eq_find?_reverse] at hi
  have hname := List.find?_some hi
  rw [beq_iff_eq, ← List.getElem?_map] at hname
  exact List.mem_of_getElem? hname

theorem columnNames_setKeyIndex (columns : List DBColumnInfo) (i k : Nat) :
    (setKeyIndex columns i k).map DBColumnInfo.name = columns.map DBColumnInfo.name := by
  refine List.ext_getElem? fun j => ?_
  rw [List.getElem?_map, List.getElem?_map, getElem?_setKeyIndex]
  split
  · cases columns[j]? <;> rfl
  · rfl

theorem addKeyColumn_frame {name : Bytes} (h : t.addKeyColumn name = .ok t') :
    t'.columnNames = t.columnNames ∧ t'.attr = t.attr := by
  rw [addKeyColumn] at h
  split at h
  · cases h
    exact ⟨columnNames_setKeyIndex _ _ _, rfl⟩
  · cases h

/-- A key line is read when its names are columns; only the key columns change. -/
theorem addKeyColumns_cases (t : TableInfo) (names : List Bytes) :
    (∃ t', t.addKeyColumns names = .ok t' ∧ t'.columnNames = t.columnNames ∧ t'.attr = t.attr ∧
      ∀ name ∈ names, t.findColumn name ≠ none) ∨
    ∃ what, t.addKeyColumns names = .error what ∧ ∃ name ∈ names, t.findColumn name = none := by
  induction names generalizing t with
  | nil => exact .inl ⟨t, rfl, rfl, rfl, by simp⟩
  | cons name names ih =>
    rw [addKeyColumns]
    cases hk : t.addKeyColumn name with
    | error what =>
      refine .inr ⟨what, rfl, name, by simp, ?_⟩
      rw [addKeyColumn] at hk
      split at hk
      · cases hk
      · assumption
    | ok t₁ =>
      have hname : t.findColumn name ≠ none := by
        intro hnone
        rw [addKeyColumn, hnone] at hk
        cases hk
      obtain ⟨hnames, hattr⟩ := addKeyColumn_frame hk
      obtain ⟨t', ht', hn, ha, hall⟩ | ⟨what, hw, n, hmem, hnone⟩ := ih t₁
      · refine .inl ⟨t', ht', hn.trans hnames, ha.trans hattr, fun n hn' => ?_⟩
        obtain rfl | hn' := List.mem_cons.mp hn'
        · exact hname
        · rw [← findColumn_names hnames]
          exact hall n hn'
      · exact .inr ⟨what, hw, n, by simp [hmem], by rwa [← findColumn_names hnames]⟩

theorem assignValues_names (i v : Nat) (columns : List DBColumnInfo) :
    (assignValues i v columns).1.map DBColumnInfo.name = columns.map DBColumnInfo.name := by
  induction columns generalizing i v with
  | nil => rfl
  | cons c cs ih =>
    rw [assignValues]
    split
    · rw [List.map_cons, List.map_cons, ih]
    · rw [List.map_cons, List.map_cons, ih]

theorem assignValues_eq_iff (i v : Nat) (columns : List DBColumnInfo) :
    (assignValues i v columns).2 = [] ↔ ∀ c ∈ columns, c.keyIndex ≠ none := by
  induction columns generalizing i v with
  | nil => simp [assignValues]
  | cons c cs ih =>
    rw [assignValues]
    split
    · next k hk => simp [ih, hk]
    · next hk => simp [hk]

theorem assignValues_of_keys {i v : Nat} {columns : List DBColumnInfo} (h : ∀ c ∈ columns, c.keyIndex ≠ none) :
    (assignValues i v columns).1 = columns := by
  induction columns generalizing i v with
  | nil => rfl
  | cons c cs ih =>
    rw [assignValues]
    split
    · rw [ih fun c' hc' => h c' (by simp [hc'])]
    · next hk => exact absurd hk (h c (by simp))

theorem evaluate_eq_self_iff : t.evaluate = .ok t ↔
    t.getAttribute (bytes "path") [] ≠ [] ∧ ∀ c ∈ t.columns, c.keyIndex ≠ none := by
  rw [evaluate]
  split
  · next hpath => simp [hpath, configError]
  · next hpath =>
    rw [← assignValues_eq_iff 0 t.values.length]
    constructor
    · intro h
      have hvalues := congrArg TableInfo.values (Except.ok.inj h)
      exact ⟨hpath, by simpa using hvalues⟩
    · rintro ⟨-, hr⟩
      rw [hr, assignValues_of_keys ((assignValues_eq_iff 0 t.values.length t.columns).mp hr), List.append_nil]

end TableInfo

namespace MetaConfigLoader

open Captures TwoRuns
open SqlParser (isDigit isSpace)

section Keys

variable {bs : Bytes} (hb : Blanks bs) (t : TableInfo) (v : Bytes)

/-- The names of a key line are columns, and the path is known. -/
def KeysOk (t : TableInfo) (v : Bytes) : Prop :=
  (∀ name ∈ splitKeys v, t.findColumn name ≠ none) ∧ t.getAttribute (bytes "path") [] ≠ []

theorem addKeys_frame {t' : TableInfo} (h : addKeys t v = .ok t') : t'.columnNames = t.columnNames ∧ t'.attr = t.attr := by
  rw [addKeys] at h
  obtain ⟨t₁, ht₁, hnames, hattr, -⟩ | ⟨what, hw, -⟩ := t.addKeyColumns_cases (splitKeys v)
  · rw [ht₁] at h
    simp only [bind, Except.bind, TableInfo.evaluate] at h
    split at h
    · cases h
    · cases h
      exact ⟨(TableInfo.assignValues_names _ _ _).trans hnames, hattr⟩
  · rw [hw] at h
    cases h

theorem addKeys_ok_iff : (addKeys t v).toOption.isSome = true ↔ KeysOk t v := by
  rw [addKeys, KeysOk]
  obtain ⟨t₁, ht₁, -, hattr, hall⟩ | ⟨what, hw, name, hmem, hnone⟩ := t.addKeyColumns_cases (splitKeys v)
  · have hpath : t₁.getAttribute (bytes "path") [] = t.getAttribute (bytes "path") [] := by
      rw [TableInfo.getAttribute, TableInfo.getAttribute, hattr]
    rw [ht₁]
    simp only [bind, Except.bind, TableInfo.evaluate, hpath]
    split
    · next h => simp [liftConfig, TableInfo.configError, Except.toOption, h]
    · next h => exact iff_of_true rfl ⟨hall, h⟩
  · rw [hw]
    refine iff_of_false (by simp [liftConfig, bind, Except.bind, Except.toOption]) fun h => h.1 name hmem hnone

theorem splitCommas_append : ∃ pieces last, splitCommas v = pieces ++ [last] ∧
    ∀ u : Bytes, 44 ∉ u → splitCommas (v ++ u) = pieces ++ [last ++ u] := by
  induction v with
  | nil =>
    refine ⟨[], [], rfl, fun u hu => ?_⟩
    rw [List.nil_append]
    induction u with
    | nil => rfl
    | cons c u ih =>
      obtain ⟨hc, hu⟩ : ¬ 44 = c ∧ 44 ∉ u := by simpa using hu
      rw [splitCommas, if_neg (Ne.symm hc), ih hu]
      rfl
  | cons c v ih =>
    obtain ⟨pieces, last, h, happ⟩ := ih
    by_cases hc : c = 44
    · refine ⟨[] :: pieces, last, by rw [splitCommas, if_pos hc, h]; rfl, fun u hu => ?_⟩
      rw [List.cons_append, splitCommas, if_pos hc, happ u hu]
      rfl
    · cases pieces with
      | nil =>
        refine ⟨[], c :: last, by rw [splitCommas, if_neg hc, h]; rfl, fun u hu => ?_⟩
        rw [List.cons_append, splitCommas, if_neg hc, happ u hu]
        rfl
      | cons p ps =>
        refine ⟨(c :: p) :: ps, last, by rw [splitCommas, if_neg hc, h]; rfl, fun u hu => ?_⟩
        rw [List.cons_append, splitCommas, if_neg hc, happ u hu]
        rfl

theorem splitCommas_of_not_mem {v : Bytes} (h : 44 ∉ v) : splitCommas v = [v] := by
  obtain ⟨pieces, last, hnil, happ⟩ := splitCommas_append []
  have hone := congrArg List.length hnil
  rw [splitCommas, List.length_singleton, List.length_append, List.length_singleton] at hone
  obtain rfl := List.length_eq_zero_iff.mp (by omega : pieces.length = 0)
  cases hnil
  simpa using happ v h

theorem splitKeys_space {v : Bytes} (h : v.all isSpace = true) : splitKeys v = [] := by
  have hcomma : 44 ∉ v := fun hmem => absurd (List.all_eq_true.mp h 44 hmem) (by decide)
  rw [splitKeys, splitCommas_of_not_mem hcomma]
  simp [h]

include hb

/-- Where blanks change the names, one of the names has a blank. -/
theorem splitKeys_extendValue (h : splitKeys (extendValue v bs) ≠ splitKeys v) :
    ∃ name ∈ splitKeys (extendValue v bs), ∃ c ∈ name, isSpace c = true := by
  by_cases hv : v.all isSpace = true
  · rw [splitKeys_space hv, splitKeys_space (extendValue_space hv hb)] at h
    exact absurd rfl h
  · have hcomma : 44 ∉ bs := fun hmem => absurd (hb.isSpace 44 hmem) (by decide)
    obtain ⟨pieces, last, hsplit, happ⟩ := splitCommas_append v
    rw [extendValue, if_neg hv] at h ⊢
    rw [splitKeys, splitKeys, happ bs hcomma, hsplit, List.filter_append, List.filter_append] at h
    have hall : (last ++ bs).all isSpace = last.all isSpace := by
      rw [List.all_append, List.all_eq_true.mpr hb.isSpace, Bool.and_true]
    cases hlast : last.all isSpace with
    | true => simp [hall, hlast] at h
    | false =>
      obtain ⟨c, hc⟩ := List.exists_mem_of_ne_nil bs hb.ne_nil
      refine ⟨last ++ bs, ?_, c, by simp [hc], hb.isSpace c hc⟩
      rw [splitKeys, happ bs hcomma, List.filter_append]
      simp [hall, hlast]

/-- Column names have no blanks, so the blanks behind a key line make its last name unknown. -/
theorem addKeys_extendValue (hplain : ∀ name ∈ t.columnNames, ∀ c ∈ name, isSpace c = false) :
    (addKeys t v).toOption = (addKeys t (extendValue v bs)).toOption ↔
      splitKeys (extendValue v bs) = splitKeys v ∨ ¬ KeysOk t v := by
  by_cases hsame : splitKeys (extendValue v bs) = splitKeys v
  · rw [addKeys, addKeys, hsame]
    exact iff_of_true rfl (.inl rfl)
  · obtain ⟨name, hmem, c, hc, hspace⟩ := splitKeys_extendValue hb v hsame
    have hbad : ¬ KeysOk t (extendValue v bs) := by
      intro hok
      have hno := hplain name (TableInfo.mem_columnNames (hok.1 name hmem)) c hc
      rw [hno] at hspace
      cases hspace
    rw [← addKeys_ok_iff, Bool.not_eq_true, Option.isSome_eq_false_iff, Option.isNone_iff_eq_none] at hbad
    rw [hbad, or_iff_right hsame, ← addKeys_ok_iff, Bool.not_eq_true, Option.isSome_eq_false_iff,
      Option.isNone_iff_eq_none]

end Keys

section Attributes

variable (t : TableInfo) (k v : Bytes)

theorem mem_addAttribute (x : Bytes) : (k, x) ∈ (addAttribute t k v).attr ↔ x = v := by
  rw [addAttribute]
  split
  · next h =>
    obtain ⟨⟨k', x'⟩, hmem, hk⟩ := List.any_eq_true.mp h
    obtain rfl : k' = k := by simpa using hk
    constructor
    · intro hx
      obtain ⟨⟨k'', y⟩, -, hy⟩ := List.mem_map.mp hx
      by_cases hk' : k'' = k'
      · simp only [hk', BEq.rfl, if_true, Prod.mk.injEq, true_and] at hy
        exact hy.symm
      · simp [hk'] at hy
    · rintro rfl
      exact List.mem_map.mpr ⟨_, hmem, by simp⟩
  · next h =>
    rw [List.mem_append, List.mem_singleton, Prod.mk.injEq]
    refine ⟨fun hx => hx.elim (fun hx => absurd ?_ h) And.right, fun hx => .inr ⟨rfl, hx⟩⟩
    exact List.any_eq_true.mpr ⟨_, hx, by simp⟩

theorem addAttribute_inj {v' : Bytes} : addAttribute t k v = addAttribute t k v' ↔ v = v' := by
  refine ⟨fun h => ?_, fun h => by rw [h]⟩
  have hmem := (mem_addAttribute t k v v).mpr rfl
  rwa [h, mem_addAttribute] at hmem

theorem addAttribute_eq_self_iff : addAttribute t k v = t ↔ ∀ x, (k, x) ∈ t.attr ↔ x = v := by
  refine ⟨fun h x => ?_, fun h => ?_⟩
  · rw [← mem_addAttribute t k v x, h]
  · have hany : t.attr.any (fun kv => kv.1 == k) = true := List.any_eq_true.mpr ⟨_, (h v).mpr rfl, by simp⟩
    have hmap : t.attr.map (fun kv => if kv.1 == k then (k, v) else kv) = t.attr := by
      refine (List.map_congr_left fun kv hkv => ?_).trans (List.map_id _)
      obtain ⟨k', x⟩ := kv
      by_cases hk : k' = k
      · subst hk
        simp [(h x).mp hkv]
      · simp [hk]
    rw [addAttribute, if_pos hany, hmap]

end Attributes

section Step

variable (config : MetaConfigLoader) (s : Section) (k : Bytes)

def ValueKept (v v' : Bytes) : Prop :=
  v' = v ∨ k = bytes "column" ∨
  (k = bytes "name" ∧ (s.named = true ∨ (config.getTableInfo v).isSome = true ∧ (config.getTableInfo v').isSome = true)) ∨
  (k = bytes "key" ∧ (splitKeys v' = splitKeys v ∨ ¬ KeysOk s.table v))

/-- When an attribute whose value is made of blanks leaves a table as it is. -/
def BlankKept (v : Bytes) : Prop :=
  k ≠ bytes "name" ∧ k ≠ bytes "column" ∧
  (k = bytes "key" → s.table.getAttribute (bytes "path") [] ≠ [] ∧ ∀ c ∈ s.table.columns, c.keyIndex ≠ none) ∧
  (k ≠ bytes "key" → ∀ x, (k, x) ∈ s.table.attr ↔ x = v)

theorem nameTable_eq_iff (v v' : Bytes) :
    (config.nameTable s v).toOption = (config.nameTable s v').toOption ↔
      v' = v ∨ s.named = true ∨ (config.getTableInfo v).isSome = true ∧ (config.getTableInfo v').isSome = true := by
  by_cases hv : v' = v
  · simp [hv]
  · rw [or_iff_right hv, nameTable, nameTable]
    cases hs : s.named <;> cases (config.getTableInfo v).isSome <;> cases (config.getTableInfo v').isSome <;>
      simp [Except.toOption, Ne.symm hv]

variable {config s k} {bs : Bytes} (hb : Blanks bs)

include hb in
theorem setTable_extendValue (hplain : ∀ name ∈ s.table.columnNames, ∀ c ∈ name, isSpace c = false) (v : Bytes) :
    (config.setTable s k v).toOption = (config.setTable s k (extendValue v bs)).toOption ↔
      ValueKept config s k v (extendValue v bs) := by
  have htable : Function.Injective fun t => ({ s with table := t } : Section) := fun t t' h => congrArg Section.table h
  have hdistinct : bytes "column" ≠ bytes "name" ∧ bytes "key" ≠ bytes "name" ∧ bytes "key" ≠ bytes "column" := by decide
  obtain ⟨hcn, hkn, hkc⟩ := hdistinct
  rw [setTable, setTable, ValueKept]
  by_cases hname : k = bytes "name"
  · subst hname
    rw [if_pos rfl, if_pos rfl, nameTable_eq_iff]
    simp [hcn.symm, hkn.symm]
  · rw [if_neg hname, if_neg hname]
    by_cases hcolumn : k = bytes "column"
    · rw [if_pos hcolumn, if_pos hcolumn, toOption_bind_inj htable, addColumn_extendValue hb]
      exact iff_of_true rfl (.inr (.inl hcolumn))
    · rw [if_neg hcolumn, if_neg hcolumn]
      by_cases hkey : k = bytes "key"
      · rw [if_pos hkey, if_pos hkey, toOption_bind_inj htable, addKeys_extendValue hb _ _ hplain]
        simp only [hkey, hkn, hkc, false_and, false_or, true_and]
        refine ⟨.inr, fun h => h.elim (fun h => .inl (by rw [h])) id⟩
      · rw [if_neg hkey, if_neg hkey]
        simp only [hname, hcolumn, hkey, false_and, or_false, Except.toOption, Option.some.injEq,
          Section.mk.injEq, and_true, addAttribute_inj]
        exact eq_comm

theorem liftConfig_toOption {t : TableInfo} {x : Except String TableInfo} :
    (liftConfig x).toOption = (Except.ok t : Except LoadError TableInfo).toOption ↔ x = .ok t := by
  cases x <;> simp [liftConfig, Except.toOption]

theorem setTable_blank {v : Bytes} (hv : v.all isSpace = true) :
    (config.setTable s k v).toOption = some s ↔ BlankKept s k v := by
  have htable : Function.Injective fun t => ({ s with table := t } : Section) := fun t t' h => congrArg Section.table h
  have hstay : some s = ((.ok s.table : Except LoadError TableInfo) >>= fun t => pure { s with table := t }).toOption := rfl
  rw [setTable]
  by_cases hname : k = bytes "name"
  · rw [if_pos hname, nameTable]
    refine iff_of_false (fun h => ?_) fun h => h.1 hname
    split_ifs at h with h1 h2
    · cases h
    · cases h
    · exact h2 (congrArg Section.named (Option.some.inj h)).symm
  · rw [if_neg hname]
    by_cases hcolumn : k = bytes "column"
    · rw [if_pos hcolumn]
      refine iff_of_false (fun h => ?_) fun h => h.2.1 hcolumn
      rw [hstay, toOption_bind_inj htable, addColumn_space _ hv] at h
      cases h
    · rw [if_neg hcolumn]
      by_cases hkey : k = bytes "key"
      · rw [if_pos hkey, hstay, toOption_bind_inj htable, addKeys, splitKeys_space hv, liftConfig_toOption]
        refine TableInfo.evaluate_eq_self_iff.trans ⟨fun h => ⟨hname, hcolumn, fun _ => h, fun h => absurd hkey h⟩, ?_⟩
        exact fun h => h.2.2.1 hkey
      · rw [if_neg hkey]
        refine Iff.trans ?_ ⟨fun h => ⟨hname, hcolumn, fun h => absurd h hkey, fun _ => h⟩, fun h => h.2.2.2 hkey⟩
        rw [← addAttribute_eq_self_iff]
        refine ⟨fun h => congrArg Section.table (Option.some.inj h), fun h => ?_⟩
        rw [h]
        rfl

end Step

section Lines

variable (config : MetaConfigLoader)

/-- One line of a file, the blanks that are added behind it and the comment that is added behind them. -/
structure Edit where
  line : Bytes
  blanks : Bytes
  comment : Option Bytes
  blank : ∀ c ∈ blanks, c = 32 ∨ c = 9

def Edit.edited (e : Edit) : Bytes := e.line ++ e.blanks ++ (e.comment.map (35 :: ·)).getD []

/-- What a line sets where no table has been started. -/
def globalKeys : List Bytes := [bytes "worker_num", bytes "timeout", bytes "execution_buffer"]

/-- When what is added to a line has no effect: a comment is there already, no blanks are added, the line
starts a table, its value does not reach to its end, or the blanks do not matter for its value. -/
def Harmless (e : Edit) : Prop :=
  35 ∈ e.line ∨ e.blanks = [] ∨ bytes "[table]" <:+: e.line ∨
  match setting e.line with
  | some (k, v, behind) => behind ≠ [] ∨ ∀ s, config.current = some s → ValueKept config s k v (extendValue v e.blanks)
  | none => ∀ k, emptyKey e.line = some k →
    match config.current with
    | none => k ∉ globalKeys
    | some s => BlankKept s k e.blanks.getLast?.toList

def uncommented (line : Bytes) : Bytes := line.takeWhile (· != 35)

def loadText (text : Bytes) : Except LoadError MetaConfigLoader :=
  if bytes "[table]" <:+: text then .ok config.startTable
  else
    match setting text with
    | some (k, v, _) => config.setAttribute k v
    | none => .ok config

theorem loadLine_eq (line : Bytes) : config.loadLine line = config.loadText (uncommented line) := by
  rw [loadLine, loadText, uncommented, search_attributeRegex]
  cases setting (line.takeWhile (· != 35)) <;> rfl

theorem uncommented_of_not_mem {text : Bytes} (h : 35 ∉ text) : uncommented text = text := by
  rw [uncommented, List.takeWhile_eq_self_iff]
  intro c hc
  rw [bne_iff_ne]
  rintro rfl
  exact h hc

theorem uncommented_edited (e : Edit) :
    uncommented e.edited = if 35 ∈ e.line then uncommented e.line else e.line ++ e.blanks := by
  split
  · next h =>
    have hdrop : e.line.dropWhile (· != 35) ≠ [] := by
      intro hnil
      have hc := List.dropWhile_eq_nil_iff.mp hnil 35 h
      cases hc
    rw [Edit.edited, List.append_assoc, uncommented, (dropWhile_append_of_ne_nil hdrop _).2, uncommented]
  · next h =>
    have hblanks : 35 ∉ e.blanks := by
      intro hmem
      obtain hc | hc := e.blank 35 hmem
      · cases hc
      · cases hc
    have htext := uncommented_of_not_mem (List.not_mem_append h hblanks)
    rw [Edit.edited]
    cases e.comment with
    | none => rwa [Option.map_none, Option.getD_none, List.append_nil]
    | some comment =>
      rw [uncommented] at htext ⊢
      rw [List.takeWhile_append_of_pos (List.takeWhile_eq_self_iff.mp htext)]
      simp

theorem table_infix_append {bs : Bytes} (hb : ∀ c ∈ bs, c = 32 ∨ c = 9) (text : Bytes) :
    bytes "[table]" <:+: text ++ bs ↔ bytes "[table]" <:+: text := by
  refine ⟨?_, fun h => h.trans (List.prefix_append _ _).isInfix⟩
  rintro ⟨x, y, hxy⟩
  obtain ⟨z, hz, -⟩ | ⟨z, hz, hbs⟩ := List.append_eq_append_iff.mp hxy
  · exact ⟨x, z, hz.symm⟩
  · obtain rfl | ⟨w, c, rfl⟩ := List.eq_nil_or_concat z
    · exact ⟨x, [], by simpa using hz⟩
    · have hlast := congrArg List.getLast? hz
      rw [List.concat_eq_append, ← List.append_assoc, List.getLast?_append, List.getLast?_append] at hlast
      have htable : (bytes "[table]").getLast? = some 93 := by decide
      have hc : c = 93 := by simpa [htable] using hlast.symm
      have hmem : c ∈ bs := by simp [hbs]
      obtain h | h := hb c hmem
      · rw [hc] at h
        cases h
      · rw [hc] at h
        cases h

/-- No column of the table that is read has a blank in its name. -/
def Plain : Prop :=
  ∀ s, config.current = some s → ∀ name ∈ s.table.columnNames, ∀ c ∈ name, isSpace c = false

variable {config}

theorem addColumn_plain {t t' : TableInfo} {v : Bytes} (ht : addColumn t v = .ok t') :
    ∃ name, (∀ c ∈ name, isSpace c = false) ∧ t'.columnNames = t.columnNames ++ [name] := by
  rw [addColumn] at ht
  split at ht
  · next name sType rest hsearch =>
    have hkept := search_kept hsearch
    cases hkept with
    | cons hname _ =>
      have hplain : ∀ c ∈ name, isSpace c = false := by
        intro c hc
        have h := hname c hc
        simp only [nameChar, Bool.and_eq_true, Bool.not_eq_true'] at h
        exact h.2
      refine ⟨name, hplain, ?_⟩
      split at ht
      · cases ht
      · split at ht
        · split_ifs at ht
          cases ht
          simp [TableInfo.columnNames, TableInfo.addColumn]
        · cases ht
          simp [TableInfo.columnNames, TableInfo.addColumn]
  · cases ht

theorem setTable_plain {s s' : Section} {k v : Bytes} (h : ∀ name ∈ s.table.columnNames, ∀ c ∈ name, isSpace c = false)
    (hs : config.setTable s k v = .ok s') : ∀ name ∈ s'.table.columnNames, ∀ c ∈ name, isSpace c = false := by
  rw [setTable] at hs
  split_ifs at hs
  · rw [nameTable] at hs
    split_ifs at hs
    cases hs
    exact h
  · obtain ⟨t, ht, hs⟩ := bind_pure_ok hs
    obtain ⟨name, hname, hnames⟩ := addColumn_plain ht
    subst hs
    intro n hn
    rw [hnames] at hn
    obtain hn | hn := List.mem_append.mp hn
    · exact h n hn
    · rw [List.mem_singleton.mp hn]
      exact hname
  · obtain ⟨t, ht, hs⟩ := bind_pure_ok hs
    subst hs
    rw [(addKeys_frame s.table v ht).1]
    exact h
  · cases hs
    rw [addAttribute]
    split
    · exact h
    · exact h

theorem setGlobal_current {config' : MetaConfigLoader} {k v : Bytes} (h : config.setGlobal k v = .ok config') :
    config'.current = config.current := by
  simp only [setGlobal] at h
  cases hv : stol v with
  | none =>
    rw [hv] at h
    split_ifs at h
    all_goals cases h
    rfl
  | some n =>
    rw [hv] at h
    split_ifs at h
    all_goals
      cases h
      rfl

theorem loadLine_plain {line : Bytes} {config' : MetaConfigLoader} (h : config.Plain)
    (hl : config.loadLine line = .ok config') : config'.Plain := by
  rw [loadLine_eq, loadText] at hl
  split at hl
  · cases hl
    intro s hs
    cases hs
    exact fun name hname => absurd hname (by simp [TableInfo.columnNames])
  · split at hl
    · next k v _ _ =>
      rw [setAttribute] at hl
      cases hcurrent : config.current with
      | none =>
        rw [hcurrent] at hl
        intro s hs
        rw [setGlobal_current hl, hcurrent] at hs
        cases hs
      | some s =>
        rw [hcurrent] at hl
        obtain ⟨s', hset, hl⟩ := bind_pure_ok hl
        subst hl
        intro s'' hs''
        cases hs''
        exact setTable_plain (h s hcurrent) hset
    · cases hl
      exact h

theorem current_injective :
    Function.Injective fun s => ({ config with current := some s } : MetaConfigLoader) :=
  fun _ _ h => Option.some.inj (congrArg MetaConfigLoader.current h)

theorem setAttribute_extendValue {bs : Bytes} (hb : Blanks bs) (h : config.Plain) (k v : Bytes) :
    (config.setAttribute k v).toOption = (config.setAttribute k (extendValue v bs)).toOption ↔
      ∀ s, config.current = some s → ValueKept config s k v (extendValue v bs) := by
  rw [setAttribute, setAttribute]
  cases hcurrent : config.current with
  | none =>
    rw [setGlobal, setGlobal, stol_extendValue hb]
    exact iff_of_true rfl fun s hs => absurd hs (by simp)
  | some s =>
    dsimp only
    rw [toOption_bind_inj current_injective, setTable_extendValue hb (h s hcurrent)]
    refine ⟨fun hk s' hs' => ?_, fun hk => hk s rfl⟩
    cases hs'
    exact hk

theorem setAttribute_blank {v : Bytes} (hv : v.all isSpace = true) (k : Bytes) :
    (.ok config : Except LoadError MetaConfigLoader).toOption = (config.setAttribute k v).toOption ↔
      match config.current with
      | none => k ∉ globalKeys
      | some s => BlankKept s k v := by
  rw [setAttribute]
  cases hcurrent : config.current with
  | none =>
    have hnumber : stol v = none := by
      rw [stol, List.dropWhile_eq_nil_iff.mpr (List.all_eq_true.mp hv)]
      rfl
    simp only [setGlobal, hnumber]
    split_ifs with h1 h2 h3
    · exact iff_of_false (fun h => by cases h) (by simp [globalKeys, h1])
    · exact iff_of_false (fun h => by cases h) (by simp [globalKeys, h2])
    · exact iff_of_false (fun h => by cases h) (by simp [globalKeys, h3])
    · exact iff_of_true rfl (by simp [globalKeys, h1, h2, h3])
  | some s =>
    have hself : (.ok config : Except LoadError MetaConfigLoader).toOption =
        ((.ok s : Except LoadError Section) >>= fun s' => pure { config with current := some s' }).toOption := by
      change some config = some { config with current := some s }
      rw [← hcurrent]
    dsimp only
    rw [hself, toOption_bind_inj current_injective, ← setTable_blank hv]
    exact eq_comm

theorem loadLine_edited (h : config.Plain) (e : Edit) :
    (config.loadLine e.line).toOption = (config.loadLine e.edited).toOption ↔ Harmless config e := by
  rw [loadLine_eq, loadLine_eq, uncommented_edited, Harmless]
  by_cases hcomment : 35 ∈ e.line
  · rw [if_pos hcomment]
    exact iff_of_true rfl (.inl hcomment)
  rw [if_neg hcomment, uncommented_of_not_mem hcomment, or_iff_right hcomment]
  by_cases hblanks : e.blanks = []
  · rw [hblanks, List.append_nil]
    exact iff_of_true rfl (.inl rfl)
  have hb : Blanks e.blanks := ⟨hblanks, e.blank⟩
  have hsame := table_infix_append e.blank e.line
  rw [or_iff_right hblanks, loadText, loadText]
  by_cases htable : bytes "[table]" <:+: e.line
  · rw [if_pos htable, if_pos (hsame.mpr htable)]
    exact iff_of_true rfl (.inl htable)
  rw [if_neg htable, if_neg (mt hsame.mp htable), or_iff_right htable]
  have hsetting := setting_append hb e.line
  cases hline : setting e.line with
  | some r =>
    obtain ⟨k, v, behind⟩ := r
    rw [hline] at hsetting
    obtain ⟨⟨k', v', behind'⟩, hedited, hr⟩ := Option.map_eq_some_iff.mp hsetting
    obtain ⟨rfl, rfl⟩ := Prod.mk.inj hr
    rw [hedited]
    dsimp only
    by_cases hbehind : behind = []
    · rw [if_pos hbehind, setAttribute_extendValue hb h, or_iff_right (not_not.mpr hbehind)]
    · rw [if_neg hbehind]
      exact iff_of_true rfl (.inl hbehind)
  | none =>
    rw [hline] at hsetting
    cases hkey : emptyKey e.line with
    | none =>
      rw [hkey] at hsetting
      rw [Option.map_eq_none_iff.mp hsetting]
      exact iff_of_true rfl fun k hk => absurd hk (by simp)
    | some k =>
      rw [hkey] at hsetting
      obtain ⟨⟨k', v', behind'⟩, hedited, hr⟩ := Option.map_eq_some_iff.mp hsetting
      obtain ⟨rfl, rfl⟩ := Prod.mk.inj hr
      rw [hedited]
      dsimp only
      have hspace : e.blanks.getLast?.toList.all isSpace = true :=
        List.all_eq_true.mpr fun c hc => hb.isSpace c (List.mem_of_getLast? (Option.mem_toList.mp hc))
      rw [setAttribute_blank hspace]
      refine ⟨fun hk k' hk' => ?_, fun hk => hk _ rfl⟩
      cases hk'
      exact hk

end Lines

section Files

/-- A file with what is added to its lines, as far as it is loaded: every addition is harmless. -/
def HarmlessRun (config : MetaConfigLoader) (es : List Edit) : Prop :=
  Along loadLine Edit.line Harmless { config with tables := [], current := none } es

/-- Additions change neither what is accepted nor the tables, however far the file is read, exactly where
each of them is harmless for the tables that have been read in front of it. -/
theorem load_edited_iff (config : MetaConfigLoader) (es : List Edit) :
    (∀ n, (config.load (some ((es.take n).map Edit.line))).toOption =
      (config.load (some ((es.take n).map Edit.edited))).toOption) ↔ HarmlessRun config es := by
  have hplain : ({ config with tables := [], current := none } : MetaConfigLoader).Plain := fun s hs => by cases hs
  exact agree_take_iff (fun _ e h => loadLine_edited h e) (fun _ _ _ h => loadLine_plain h) hplain es

def plainLine (line : String) : Edit := ⟨bytes line, [], none, by simp⟩

/-- The table of the manual, without and with its comments. -/
def manualTable : List Edit :=
  [plainLine "[table]", plainLine "name=test",
    ⟨bytes "path=testdb", [32], some (bytes "directory holding leveldb data files, can also be a csv file path"), by simp⟩,
    plainLine "column=a:int32", plainLine "column=b:varchar", plainLine "column=c:double", plainLine "column=d:datetime",
    ⟨bytes "key=a,b", [32], some (bytes "only valid for non-csv table"), by simp⟩]

def errorOf (r : Except LoadError MetaConfigLoader) : Option LoadError :=
  match r with
  | .ok _ => none
  | .error e => some e

theorem manualTable_not_loaded :
    errorOf (load {} (some (manualTable.map Edit.line))) = none ∧
    errorOf (load {} (some (manualTable.map Edit.edited))) = some (.config "Undefined key column 'b '") := by
  decide +kernel

end Files

end MetaConfigLoader

end LevelPgServer
