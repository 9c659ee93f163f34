import Mathlib.Data.List.GetD
import LevelPgServer.Lib.Lalr

/-! The tables of the generated parser, under the names they have there. -/

namespace LevelPgServer.SqlParser

def YYFINAL : Nat := 41
def YYLAST : Int := 327
def YYNTOKENS : Nat := 110
def YYPACT_NINF : Int := -77
def YYTERROR : Nat := 1
def YYMAXDEPTH : Nat := 10000

def yypact : List Int := [
  -38, -33, -63, 14, -40, -48, 3, -76, 40, -77, -58, -77, -77, -77, -77, -77, -77, -77, 14, -77, -77, -11,
  14, -64, -77, -77, -77, -77, -77, -77, -77, 67, 67, -77, -77, 67, 222, -77, -65, 67, -14, -77, -77, 18,
  -77, -10, 97, 67, -77, -77, 126, 67, 67, 5, 57, 99, 103, 67, 67, 67, 67, 67, 67, 67, 67, 67, 67, 67, 67,
  124, -2, 67, 250, -45, 21, 67, -77, 127, -61, -77, 151, -77, 271, 291, 67, -77, 118, -77, 24, 49, 49, 49,
  49, 49, 49, 53, 53, -77, -77, -77, -77, -77, 145, 81, -77, -77, -77, 67, 67, 250, -77, -18, -77, -77,
  -77, 90, 26, -77, 67, 27, 133, 18, 250, -16, -77, 134, 67, -77, 30, -77, -77, 73, -77, -77, -77, -77, 70,
  77, 127, 67, 80, 54, 250, 85, 93, 67, 165, -77, 176, 64, -71, -77, -77, -77, 67, 175, 183, 176, -77, -77,
  -77]

def yydefact : List Nat := [
  0, 0, 0, 0, 0, 0, 0, 0, 0, 8, 0, 10, 5, 9, 6, 7, 4, 50, 0, 86, 51, 0, 0, 11, 12, 13, 15, 14, 17, 16, 18,
  0, 0, 85, 20, 0, 81, 83, 0, 0, 47, 1, 2, 65, 3, 52, 0, 0, 28, 27, 0, 0, 0, 0, 0, 0, 0, 0, 0, 0, 0, 0, 0,
  0, 0, 0, 0, 0, 0, 0, 0, 0, 56, 0, 0, 0, 46, 0, 0, 19, 0, 38, 37, 36, 0, 39, 0, 35, 0, 29, 30, 31, 33, 32,
  34, 21, 22, 23, 24, 25, 26, 82, 0, 62, 60, 84, 54, 0, 0, 66, 58, 0, 49, 48, 43, 44, 0, 40, 0, 0, 0, 65,
  57, 0, 53, 0, 0, 41, 0, 61, 63, 70, 55, 59, 45, 42, 0, 77, 0, 0, 79, 71, 78, 0, 67, 0, 0, 64, 74, 80, 0,
  75, 76, 72, 0, 0, 0, 74, 68, 69, 73]

def yypgoto : List Int := [
  -77, -77, 89, 192, -6, -51, -77, 120, -77, -77, -77, -77, -77, 105, 76, -77, -77, 137, 95, -77, -77, -77,
  60, -77, -77, 147, -77, -4]

def yydefgoto : List Int := [
  -1, 8, 9, 10, 115, 116, 11, 12, 13, 14, 15, 78, 40, 73, 111, 103, 121, 16, 76, 147, 137, 149, 153, 140,
  144, 37, 38, 20]

def yytable : List Nat := [
  36, 19, 70, 1, 18, 1, 23, 24, 25, 26, 27, 17, 28, 29, 43, 30, 6, 19, 45, 155, 2, 3, 2, 3, 22, 48, 49, 7,
  4, 50, 5, 39, 5, 72, 31, 32, 33, 6, 156, 6, 41, 80, 46, 47, 71, 82, 83, 42, 7, 34, 7, 89, 90, 91, 92, 93,
  94, 95, 96, 97, 98, 99, 100, 106, 107, 36, 104, 128, 85, 109, 23, 24, 25, 26, 27, 134, 28, 29, 86, 30,
  63, 64, 65, 66, 67, 68, 65, 66, 67, 68, 124, 125, 132, 107, 44, 74, 75, 77, 31, 32, 79, 122, 72, 87, 51,
  102, 52, 53, 54, 55, 35, 56, 84, 34, 57, 58, 59, 60, 61, 62, 88, 63, 64, 65, 66, 67, 68, 101, 108, 117,
  110, 118, 120, 142, 127, 129, 130, 133, 135, 148, 51, 136, 52, 53, 54, 55, 139, 56, 157, 138, 57, 58, 59,
  60, 61, 62, 143, 63, 64, 65, 66, 67, 68, 125, 145, 51, 146, 52, 53, 54, 55, 150, 56, 154, 35, 57, 58, 59,
  60, 61, 62, 158, 63, 64, 65, 66, 67, 68, 1, 159, 51, 119, 52, 53, 54, 55, 21, 56, 112, 126, 57, 58, 59,
  60, 61, 62, 3, 63, 64, 65, 66, 67, 68, 123, 141, 113, 131, 160, 105, 0, 0, 0, 6, 0, 0, 0, 0, 0, 151, 0,
  0, 0, 0, 7, 81, 0, 51, 152, 52, 53, 54, 55, 0, 56, 0, 0, 57, 58, 59, 60, 61, 62, 0, 63, 64, 65, 66, 67,
  68, 114, 0, 0, 0, 0, 51, 0, 52, 53, 54, 55, 0, 56, 0, 69, 57, 58, 59, 60, 61, 62, 0, 63, 64, 65, 66, 67,
  68, 52, 53, 54, 55, 0, 56, 0, 0, 57, 58, 59, 60, 61, 62, 0, 63, 64, 65, 66, 67, 68, 53, 54, 55, 0, 56, 0,
  0, 57, 58, 59, 60, 61, 62, 0, 63, 64, 65, 66, 67, 68]

def yycheck : List Int := [
  6, 3, 67, 43, 67, 43, 3, 4, 5, 6, 7, 44, 9, 10, 18, 12, 77, 3, 22, 90, 60, 61, 60, 61, 72, 31, 32, 88,
  66, 35, 70, 107, 70, 39, 31, 32, 33, 77, 109, 77, 0, 47, 106, 107, 109, 51, 52, 105, 88, 46, 88, 57, 58,
  59, 60, 61, 62, 63, 64, 65, 66, 67, 68, 108, 109, 71, 70, 118, 11, 75, 3, 4, 5, 6, 7, 126, 9, 10, 21, 12,
  31, 32, 33, 34, 35, 36, 33, 34, 35, 36, 108, 109, 108, 109, 105, 109, 78, 107, 31, 32, 3, 107, 108, 4,
  14, 107, 16, 17, 18, 19, 107, 21, 107, 46, 24, 25, 26, 27, 28, 29, 17, 31, 32, 33, 34, 35, 36, 3, 107,
  11, 3, 107, 51, 139, 108, 108, 3, 3, 108, 145, 14, 68, 16, 17, 18, 19, 69, 21, 154, 79, 24, 25, 26, 27,
  28, 29, 76, 31, 32, 33, 34, 35, 36, 109, 79, 14, 73, 16, 17, 18, 19, 6, 21, 109, 107, 24, 25, 26, 27, 28,
  29, 6, 31, 32, 33, 34, 35, 36, 43, 6, 14, 102, 16, 17, 18, 19, 4, 21, 78, 109, 24, 25, 26, 27, 28, 29,
  61, 31, 32, 33, 34, 35, 36, 108, 138, 78, 121, 157, 71, -1, -1, -1, 77, -1, -1, -1, -1, -1, 52, -1, -1,
  -1, -1, 88, 108, -1, 14, 61, 16, 17, 18, 19, -1, 21, -1, -1, 24, 25, 26, 27, 28, 29, -1, 31, 32, 33, 34,
  35, 36, 108, -1, -1, -1, -1, 14, -1, 16, 17, 18, 19, -1, 21, -1, 51, 24, 25, 26, 27, 28, 29, -1, 31, 32,
  33, 34, 35, 36, 16, 17, 18, 19, -1, 21, -1, -1, 24, 25, 26, 27, 28, 29, -1, 31, 32, 33, 34, 35, 36, 17,
  18, 19, -1, 21, -1, -1, 24, 25, 26, 27, 28, 29, -1, 31, 32, 33, 34, 35, 36]

def yyr1 : List Nat := [
  0, 110, 111, 111, 112, 112, 112, 112, 113, 113, 113, 114, 114, 114, 114, 114, 114, 114, 114, 114, 114,
  114, 114, 114, 114, 114, 114, 114, 114, 114, 114, 114, 114, 114, 114, 114, 114, 114, 114, 114, 114, 114,
  114, 114, 115, 115, 116, 117, 118, 118, 119, 120, 121, 121, 122, 122, 123, 123, 124, 124, 125, 125, 126,
  126, 127, 128, 128, 129, 129, 129, 130, 130, 131, 131, 132, 132, 132, 133, 133, 134, 134, 135, 135, 136,
  136, 136, 137]

def yyr2 : List Nat := [
  0, 2, 2, 3, 1, 1, 1, 1, 1, 1, 1, 1, 1, 1, 1, 1, 1, 1, 1, 3, 1, 3, 3, 3, 3, 3, 3, 2, 2, 3, 3, 3, 3, 3, 3,
  3, 3, 3, 3, 3, 4, 5, 6, 4, 1, 3, 4, 2, 5, 5, 2, 2, 0, 3, 3, 5, 1, 3, 1, 3, 1, 3, 0, 2, 10, 0, 2, 0, 4, 4,
  0, 3, 2, 4, 0, 1, 1, 0, 2, 0, 3, 1, 3, 1, 3, 1, 1]

/-- The entry of `yytable` for a row and a symbol or state, if `yycheck` says that it is theirs. -/
def lookup (row : Int) (n : Nat) : Option Nat :=
  if 0 ≤ row + n ∧ row + n ≤ YYLAST ∧ yycheck.getD (row + n).toNat (-1) = n then
    some (yytable.getD (row + n).toNat 0)
  else none

def shift (s t : Nat) : Option Nat :=
  if yypact.getD s YYPACT_NINF = YYPACT_NINF then none else lookup (yypact.getD s YYPACT_NINF) t

def goto (p lhs : Nat) : Nat :=
  match lookup (yypgoto.getD (lhs - YYNTOKENS) 0) p with
  | some s => s
  | none => (yydefgoto.getD (lhs - YYNTOKENS) 0).toNat

def defaultRule (s : Nat) : Option Nat :=
  match yydefact.getD s 0 with
  | 0 => none
  | r + 1 => some (r + 1)

/-- The generated parser. Its tables have no reduction on a token, and no transition on the token
`error` (`shift_pos`, `shift_error`). -/
def sqlTables : Lalr where
  consistent s := yypact.getD s YYPACT_NINF = YYPACT_NINF
  shift := shift
  reduce := defaultRule
  length r := yyr2.getD r 0
  lhs r := yyr1.getD r 0
  goto := goto
  final := YYFINAL
  maxDepth := YYMAXDEPTH

def operandBelow : List Nat := [
  6, 31, 32, 35, 39, 47, 51, 52, 57, 58, 59, 60, 61, 62, 63, 64, 65, 66, 67, 68, 71, 75, 84, 107, 108, 118,
  126, 139, 145, 154]

def comparisonBelow : List Nat := [
  36, 50, 72, 80, 82, 83, 109, 115, 122, 142, 148, 157]

def sumBelow : List Nat := [
  36, 50, 72, 80, 82, 83, 89, 90, 91, 92, 93, 94, 109, 115, 122, 142, 148, 157]

def productBelow : List Nat := [
  36, 50, 72, 80, 82, 83, 89, 90, 91, 92, 93, 94, 95, 96, 109, 115, 122, 142, 148, 157]

def belowTable : List (List Nat) := [
  [], [0, 4, 102], [0, 4], [0, 4, 102], [0], [0, 4], [0, 4, 78, 102], [0, 4, 78, 102], [0], [0, 4], [0],
  [0, 4], [0, 4, 102], [0, 4], [0, 4, 102], [0, 4, 102], [0, 4, 102], [1], [2], [3, 18, 22, 70], [3], [4],
  [5], operandBelow, operandBelow, operandBelow, operandBelow, operandBelow, operandBelow, operandBelow,
  operandBelow, operandBelow, operandBelow, [6], operandBelow, operandBelow, [6, 71], [6], [6], [7], [7],
  [8], [10], [18], [21], [22], [23], [23], [31], [32], [35],
  [36, 50, 72, 80, 109, 115, 122, 142, 148, 157], [36, 50, 72, 80, 82, 109, 115, 122, 142, 148, 157],
  comparisonBelow, comparisonBelow, comparisonBelow, comparisonBelow, comparisonBelow, comparisonBelow,
  comparisonBelow, comparisonBelow, comparisonBelow, comparisonBelow, sumBelow, sumBelow, productBelow,
  productBelow, productBelow, productBelow, [36], [38], [38], [39, 108], [39], [40], [43, 121], [43], [45],
  [45], [46], [47], [50], [51], [52], [53], [54], [54], [55], [56], [57], [58], [59], [60], [61], [62],
  [63], [64], [65], [66], [67], [68], [69], [70], [70], [70], [71], [73], [73, 123], [74], [75], [77, 138],
  [77], [78], [78], [80], [84, 118, 126], [84], [86], [88], [102], [103], [103], [107], [108], [111],
  [111, 141], [115], [116], [118], [119], [120], [121], [123], [125], [126], [128], [131], [131], [136],
  [137], [137], [138], [139], [140], [140], [143], [144], [144], [145], [145], [146], [148, 157],
  [148, 157], [148], [149], [150], [150], [154], [155], [156], [157]]

/-- For each state, a bound on the reductions that follow without a shift. -/
def weightTable : List Nat := [
  0, 0, 0, 0, 0, 0, 0, 0, 0, 1, 0, 1, 2, 1, 2, 2, 2, 2, 0, 14, 2, 0, 0, 9, 9, 9, 9, 9, 9, 9, 9, 0, 0, 1, 9,
  0, 2, 1, 0, 0, 2, 0, 0, 2, 0, 2, 0, 0, 8, 8, 0, 0, 0, 0, 0, 0, 0, 0, 0, 0, 0, 0, 0, 0, 0, 0, 0, 0, 0, 0,
  0, 0, 1, 0, 0, 0, 0, 0, 0, 7, 0, 7, 7, 7, 0, 7, 0, 7, 0, 7, 7, 7, 7, 7, 7, 7, 7, 7, 7, 7, 7, 0, 0, 12,
  13, 0, 1, 0, 0, 8, 6, 0, 0, 0, 6, 1, 0, 6, 0, 0, 0, 10, 0, 0, 0, 0, 0, 5, 0, 11, 10, 8, 0, 4, 0, 4, 0, 6,
  0, 0, 4, 5, 4, 0, 2, 0, 0, 0, 3, 1, 0, 2, 2, 1, 0, 0, 0, 2, 0, 0, 0]

def below (s : Nat) : List Nat := belowTable.getD s []

def weight (s : Nat) : Nat := weightTable.getD s 0

def entries : List ((Int × Nat) × Nat) := (yycheck.zip yytable).zip (List.range 328)

-- Long enough for the recursion over a table.
set_option maxRecDepth 4000

theorem length_yycheck : yycheck.length = 328 := rfl

theorem length_yytable : yytable.length = 328 := rfl

theorem length_yypact : yypact.length = 161 := rfl

theorem getD_mem_zip {α β : Type} (l : List α) (m : List β) (a : α) (b : β) {i n : Nat} (hl : l.length = n)
    (hm : m.length = n) (hi : i < n) : ((l.getD i a, m.getD i b), i) ∈ (l.zip m).zip (List.range n) := by
  have hl' : i < l.length := by rwa [hl]
  have hm' : i < m.length := by rwa [hm]
  refine List.mem_iff_getElem.mpr ⟨i, by simp [hl, hm, hi], ?_⟩
  simp [hl', hm']

theorem lookup_mem {row : Int} {n s : Nat} (h : lookup row n = some s) :
    ∃ i : Nat, row + n = i ∧ ((↑n, s), i) ∈ entries := by
  unfold lookup at h
  split at h
  case isFalse => cases h
  case isTrue hrow =>
    obtain ⟨hlow, hhigh, hcheck⟩ := hrow
    obtain ⟨i, hi⟩ := Int.eq_ofNat_of_zero_le hlow
    rw [hi, Int.toNat_natCast] at hcheck h
    have hlt : i < 328 := by
      unfold YYLAST at hhigh
      omega
    have hmem := getD_mem_zip yycheck yytable (-1) 0 length_yycheck length_yytable hlt
    rw [hcheck, Option.some.inj h] at hmem
    exact ⟨i, hi, hmem⟩

theorem entries_all {P : (Int × Nat) × Nat → Bool} (hall : entries.all P = true) {row : Int} {n s : Nat}
    (h : lookup row n = some s) : ∃ i : Nat, row + n = i ∧ P ((↑n, s), i) = true := by
  obtain ⟨i, hi, hmem⟩ := lookup_mem h
  exact ⟨i, hi, List.all_eq_true.mp hall _ hmem⟩

theorem shift_row {s t s' : Nat} (h : shift s t = some s') :
    ∃ row, (row, s) ∈ yypact.zip (List.range 161) ∧ row ≠ YYPACT_NINF ∧ lookup row t = some s' := by
  unfold shift at h
  split at h
  case isTrue => cases h
  case isFalse hrow =>
    have hlt : s < 161 := by
      by_contra hge
      exact hrow (List.getD_eq_default _ _ (by rw [length_yypact]; exact Nat.le_of_not_lt hge))
    have hzip : s < (yypact.zip (List.range 161)).length := by simpa [length_yypact] using hlt
    refine ⟨_, List.mem_iff_getElem.mpr ⟨s, hzip, ?_⟩, hrow, h⟩
    rw [List.getElem_zip, List.getElem_range, List.getD_eq_getElem]

/-- What a transition on a token leads to lies on the state it leaves. -/
def entryBelow (row : Int) (s : Nat) : (Int × Nat) × Nat → Bool
  | ((.negSucc _, _), _) => true
  | ((.ofNat t, s'), i) =>
    match row with
    | .ofNat r => if Nat.beq i (r + t) then (below s').contains s else true
    | .negSucc r => if Nat.beq (i + (r + 1)) t then (below s').contains s else true

theorem rows_below : ((yypact.zip (List.range 161)).all fun (row, s) =>
    if row = YYPACT_NINF then true else entries.all (entryBelow row s)) = true := by decide +kernel

theorem shift_mem (s t s' : Nat) (h : shift s t = some s') : s ∈ below s' := by
  obtain ⟨row, hmem, hrow, hlook⟩ := shift_row h
  have hall := List.all_eq_true.mp rows_below _ hmem
  dsimp only at hall
  rw [if_neg hrow] at hall
  obtain ⟨i, hi, hentry⟩ := entries_all hall hlook
  rw [← List.contains_iff_mem]
  cases row with
  | ofNat r =>
    rw [Int.ofNat_eq_natCast] at hi
    have hbeq : Nat.beq i (r + t) = true := Nat.beq_eq.mpr (by omega)
    change (if Nat.beq i (r + t) then (below s').contains s else true) = true at hentry
    rwa [if_pos hbeq] at hentry
  | negSucc r =>
    have hbeq : Nat.beq (i + (r + 1)) t = true := Nat.beq_eq.mpr (by omega)
    change (if Nat.beq (i + (r + 1)) t then (below s').contains s else true) = true at hentry
    rwa [if_pos hbeq] at hentry

/-- No transition leads to state 0, so a shift is what the source does on every entry it finds. -/
theorem shift_pos {s t s' : Nat} (h : shift s t = some s') : 0 < s' := by
  obtain ⟨row, -, -, hlook⟩ := shift_row h
  have hall : entries.all (fun e => decide (e.1.1 < 0) || Nat.ble 1 e.1.2) = true := rfl
  obtain ⟨i, -, hentry⟩ := entries_all hall hlook
  obtain hneg | hpos := (Bool.or_eq_true _ _).mp hentry
  · exact absurd (of_decide_eq_true hneg) (Int.not_lt.mpr (Int.natCast_nonneg t))
  · exact Nat.le_of_ble_eq_true hpos

/-- No state goes on after an error. -/
theorem shift_error (s : Nat) : shift s YYTERROR = none := by
  by_contra h
  obtain ⟨s', hs'⟩ := Option.ne_none_iff_exists'.mp h
  obtain ⟨row, -, -, hlook⟩ := shift_row hs'
  have hall : entries.all (fun e => e.1.1 != 1) = true := rfl
  obtain ⟨i, -, hentry⟩ := entries_all hall hlook
  simp [YYTERROR] at hentry

/-- The default reduction of a state pops what was pushed for the rule, and leads on. -/
def reducesBelow (s : Nat) : Bool :=
  match defaultRule s with
  | none => true
  | some r =>
    (List.range (yyr2.getD r 0)).all (fun k => !(Lalr.under below k s).contains 0) &&
      (Lalr.under below (yyr2.getD r 0) s).all fun p =>
        (below (goto p (yyr1.getD r 0))).contains p &&
          Nat.ble (weight (goto p (yyr1.getD r 0)) + 2) (yyr2.getD r 0 + weight s)

theorem states_reduce : ((List.range 161).all fun s => s == YYFINAL || reducesBelow s) = true := by decide +kernel

theorem reduces_below {s r : Nat} (hfinal : s ≠ YYFINAL) (h : defaultRule s = some r) :
    (∀ k < yyr2.getD r 0, 0 ∉ Lalr.under below k s) ∧
      ∀ p ∈ Lalr.under below (yyr2.getD r 0) s,
        p ∈ below (goto p (yyr1.getD r 0)) ∧ weight (goto p (yyr1.getD r 0)) + 2 ≤ yyr2.getD r 0 + weight s := by
  have hlt : s < yydefact.length := by
    by_contra hge
    rw [defaultRule, List.getD_eq_default _ _ (Nat.le_of_not_lt hge)] at h
    cases h
  have hall := List.all_eq_true.mp states_reduce s (List.mem_range.mpr hlt)
  rw [Bool.or_eq_true, or_iff_right (by simpa using hfinal)] at hall
  unfold reducesBelow at hall
  rw [h] at hall
  simpa using hall

def sqlGround : Lalr.Ground sqlTables where
  below := below
  weight := weight
  heaviest := 14
  weight_le s := by
    by_cases hs : s < weightTable.length
    · have hall : weightTable.all (Nat.ble · 14) = true := rfl
      rw [weight, List.getD_eq_getElem _ _ hs]
      exact Nat.le_of_ble_eq_true (List.all_eq_true.mp hall _ (List.getElem_mem hs))
    · rw [weight, List.getD_eq_default _ _ (Nat.le_of_not_lt hs)]
      exact Nat.zero_le _
  shift_mem := shift_mem
  deep _ hfinal _ h := (reduces_below hfinal h).1
  goto_mem _ hfinal _ h p hp := ((reduces_below hfinal h).2 p hp).1
  lighter _ hfinal _ h p hp := ((reduces_below hfinal h).2 p hp).2

/-! Where the end of a statement, an unsupported token and some of the rules stand in the tables. -/

theorem shift_semicolon {s s' : Nat} (h : shift s 105 = some s') : s' = 42 ∨ s' = 44 := by
  obtain ⟨row, -, -, hlook⟩ := shift_row h
  have hall : entries.all (fun e => e.1.1 != 105 || e.1.2 == 42 || e.1.2 == 44) = true := rfl
  obtain ⟨i, -, hentry⟩ := entries_all hall hlook
  simpa using hentry

theorem shift_errorToken {s s' : Nat} (h : shift s 46 = some s') : s' = 34 := by
  obtain ⟨row, -, -, hlook⟩ := shift_row h
  have hall : entries.all (fun e => e.1.1 != 46 || e.1.2 == 34) = true := rfl
  obtain ⟨i, -, hentry⟩ := entries_all hall hlook
  simpa using hentry

/-- Only a shift leads to the states after a semicolon. -/
theorem goto_ne (p lhs : Nat) : goto p lhs ≠ 42 ∧ goto p lhs ≠ 44 := by
  have hentries : entries.all (fun e => e.1.2 != 42 && e.1.2 != 44 || e.1.1 == 105) = true := rfl
  have hrows : (0 :: yypgoto).all (fun row => lookup row 105 != some 42 && lookup row 105 != some 44) = true :=
    rfl
  have hdefaults : (0 :: yydefgoto).all (fun g => g.toNat != 42 && g.toNat != 44) = true := rfl
  have hget : ∀ (l : List Int) (k : Nat), l.getD k 0 ∈ 0 :: l := by
    intro l k
    by_cases hk : k < l.length
    · rw [List.getD_eq_getElem _ _ hk]
      exact List.mem_cons_of_mem _ (List.getElem_mem hk)
    · rw [List.getD_eq_default _ _ (Nat.le_of_not_lt hk)]
      exact List.mem_cons_self
  unfold goto
  cases hlook : lookup (yypgoto.getD (lhs - YYNTOKENS) 0) p with
  | none => simpa using List.all_eq_true.mp hdefaults _ (hget yydefgoto (lhs - YYNTOKENS))
  | some s =>
    obtain ⟨i, -, hentry⟩ := entries_all hentries hlook
    have hrow := List.all_eq_true.mp hrows _ (hget yypgoto (lhs - YYNTOKENS))
    by_cases hp : p = 105
    · rw [← hp, hlook] at hrow
      simpa using hrow
    · simpa [show (p : Int) ≠ 105 by omega] using hentry

/-- The states that reduce by the rules `n` of a list are among those of another. -/
theorem defaultRule_mem {rules states : List Nat}
    (hall : ((List.range 161).all fun s => !(rules.contains (yydefact.getD s 0)) || states.contains s) = true)
    {s r : Nat} (h : defaultRule s = some r) (hr : r ∈ rules) : s ∈ states := by
  have hdefact : yydefact.getD s 0 = r ∧ r ≠ 0 := by
    unfold defaultRule at h
    split at h
    case h_1 => cases h
    case h_2 n hn =>
      cases h
      exact ⟨hn, Nat.succ_ne_zero n⟩
  have hlt : s < yydefact.length := by
    by_contra hge
    rw [List.getD_eq_default _ _ (Nat.le_of_not_lt hge)] at hdefact
    exact hdefact.2 hdefact.1.symm
  have hs := List.all_eq_true.mp hall s (List.mem_range.mpr hlt)
  rw [hdefact.1] at hs
  simpa [hr] using hs

theorem defaultRule_accepts {s r : Nat} (h : defaultRule s = some r) (hr : r = 2 ∨ r = 3) : s = 42 ∨ s = 44 := by
  have := @defaultRule_mem [2, 3] [42, 44] rfl _ _ h (by simpa using hr)
  simpa using this

theorem consistent_of_mem {s : Nat} (hs : s ∈ [34, 42, 44]) : sqlTables.consistent s = true := by
  have hall : [34, 42, 44].all sqlTables.consistent = true := rfl
  exact List.all_eq_true.mp hall s hs

theorem defaultRule_errorToken : defaultRule 34 = some 20 := rfl

theorem defaultRule_semicolon {s : Nat} (hs : s = 42 ∨ s = 44) :
    ∃ r, defaultRule s = some r ∧ (r = 2 ∨ r = 3) := by
  obtain rfl | rfl := hs
  · exact ⟨2, rfl, .inl rfl⟩
  · exact ⟨3, rfl, .inr rfl⟩

end LevelPgServer.SqlParser
