import LevelPgServer.Execution.RowCounters
import LevelPgServer.PlanBuilder.SelectPlanBuilder

namespace LevelPgServer

open ParseNode LevelDBPlanBuilder

theorem bytes_digit_injective {c d : Char} (hc : c.isDigit) (hd : d.isDigit)
    (h : UInt8.ofNat c.toNat = UInt8.ofNat d.toNat) : c = d := by
  have hlt : ∀ e : Char, e.isDigit → e.toNat < 256 := by
    intro e he
    have h57 : e.val ≤ 57 := by
      simp only [Char.isDigit, Bool.and_eq_true, decide_eq_true_eq] at he
      exact he.2
    have : e.val.toNat ≤ 57 := UInt32.le_iff_toNat_le.mp h57
    exact lt_of_le_of_lt this (by decide)
  have hn := congrArg UInt8.toNat h
  rw [UInt8.toNat_ofNat', UInt8.toNat_ofNat', Nat.mod_eq_of_lt (hlt c hc), Nat.mod_eq_of_lt (hlt d hd)] at hn
  exact Char.toNat_inj.mp hn

theorem map_digits_injective {cs ds : List Char} (hc : ∀ c ∈ cs, c.isDigit) (hd : ∀ d ∈ ds, d.isDigit)
    (h : cs.map (fun c => UInt8.ofNat c.toNat) = ds.map (fun c => UInt8.ofNat c.toNat)) : cs = ds := by
  induction cs generalizing ds with
  | nil => exact (List.map_eq_nil_iff.mp h.symm).symm
  | cons c cs ih =>
    cases ds with
    | nil => cases h
    | cons d ds =>
      obtain ⟨hcd, hrest⟩ := List.cons.inj h
      rw [bytes_digit_injective (hc c (by simp)) (hd d (by simp)) hcd,
        ih (fun e he => hc e (by simp [he])) (fun e he => hd e (by simp [he])) hrest]

theorem bytes_repr_injective {n m : Nat} (h : bytes (ToString.toString n) = bytes (ToString.toString m)) : n = m := by
  have hdigit : ∀ k : Nat, ∀ c ∈ Nat.toDigits 10 k, c.isDigit :=
    fun k c hc => Nat.isDigit_of_mem_toDigits (by decide) (by decide) hc
  have hlist : ∀ k : Nat, (ToString.toString k).toList = Nat.toDigits 10 k := fun k => Nat.toList_repr
  rw [bytes, bytes, hlist, hlist] at h
  have hd := map_digits_injective (hdigit n) (hdigit m) h
  rw [← Nat.ofDigitChars_ten_toDigits (n := n), hd, Nat.ofDigitChars_ten_toDigits]

namespace Plan

theorem selectTag_inj {n m : Nat} : selectTag n = selectTag m ↔ n = m := by
  constructor
  · intro h
    exact bytes_repr_injective (List.append_cancel_left h)
  · rintro rfl
    rfl

variable (conv : Conversions) (std : StdSort) (st : Storage)

/-- The count that reaches the client comes from a limit or a file only if nothing but projections and sorts
stands above it; then the rows below the limit must suit it, and the file must not have counted rows before. -/
def CountsRows (m_iRowCount : Nat) : Plan → Prop
  | sort _ child => child.CountsRows m_iRowCount
  | projection _ child => child.CountsRows m_iRowCount
  | readFile _ => m_iRowCount = 0
  | limit plan child => plan.CountsAll (child.run conv std st).rows.length
  | _ => True

variable {conv std st}

theorem ConstPlan.run_length (plan : ConstPlan) : (plan.run conv).rows.length = plan.rows.length := by
  simp [ConstPlan.run]

theorem collectRows_length {proj : List SortProjection} {types : List DBDataType} {f : Option Fault} {rows : List Row}
    {pool : Nat} {buffer : ExecutionBuffer} {out : List Bytes}
    (h : SortPlan.collectRows conv proj types f rows pool buffer = .ok out) :
    out.length = rows.length ∧ f = none := by
  induction rows generalizing pool buffer out with
  | nil =>
    cases f with
    | none =>
      cases h
      exact ⟨rfl, rfl⟩
    | some f => cases h
  | cons r rs ih =>
    obtain ⟨results, -, h⟩ := ExceptRules.bind_eq_ok.mp h
    obtain ⟨⟨row, pool', buffer'⟩, -, h⟩ := ExceptRules.bind_eq_ok.mp h
    obtain ⟨rest, hrest, h⟩ := ExceptRules.bind_eq_ok.mp h
    cases h
    obtain ⟨hlen, hf⟩ := ih hrest
    exact ⟨by simp [hlen], hf⟩

/-- A sort that does not fail has read all rows of its child, and delivers as many. -/
theorem sort_run_length {plan : SortPlan} {types : Nat → Fallible DBDataType} {pool : Nat} {child : Run Row}
    (h : (plan.run conv std types pool child).fault = none) :
    (plan.run conv std types pool child).rows.length = child.rows.length ∧ child.fault = none := by
  rw [SortPlan.run] at h ⊢
  cases hb : plan.begin conv std types pool child with
  | error f =>
    rw [hb] at h
    cases h
  | ok rows =>
    obtain ⟨ts, -, hb⟩ := ExceptRules.bind_eq_ok.mp hb
    obtain ⟨out, hout, hb⟩ := ExceptRules.bind_eq_ok.mp hb
    obtain ⟨hlen, hf⟩ := collectRows_length hout
    split at hb
    · cases hb
      refine ⟨?_, hf⟩
      rw [List.length_map, (std.perm _ out).length_eq, hlen]
    · cases hb

end Plan

open SelectPlanBuilder

/-- `select * from (values (1), (2)) limit <count> offset 0`. -/
def firstValues (count : String) : ParseNode :=
  Clauses.node { project := starNode, table := valuesNode [[intNode "1"], [intNode "2"]], limit := limitNode count "0" }

end LevelPgServer
