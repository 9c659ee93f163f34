import LevelPgServer.Common.SqlParser
import LevelPgServer.Execution.FilterPlan
import LevelPgServer.Lib.Wildcard

namespace LevelPgServer.FilterPlan

open ParseNode SqlParser
open Wildcard (Matches Plain)
open ExceptRules

theorem contains_iff (s p : Bytes) : contains s p = true ↔ p <:+: s := by
  unfold contains
  rw [List.any_eq_true]
  constructor
  · rintro ⟨u, hu, hp⟩
    obtain ⟨w, rfl⟩ := List.isPrefixOf_iff_prefix.mp hp
    obtain ⟨v, rfl⟩ := (List.mem_tails _ _).mp hu
    exact ⟨v, w, List.append_assoc v p w⟩
  · rintro ⟨v, w, rfl⟩
    refine ⟨p ++ w, (List.mem_tails _ _).mpr ⟨v, ?_⟩, List.isPrefixOf_iff_prefix.mpr ⟨w, rfl⟩⟩
    exact (List.append_assoc v p w).symm

def cut (pattern : Bytes) : Bytes := (pattern.drop 1).take (pattern.length - 2)

theorem cut_wrapped (p : Bytes) : cut (37 :: (p ++ [37])) = p := by
  simp [cut]

theorem isWrapped_cases {pattern : Bytes} (h : isWrapped pattern = true) :
    pattern = [37] ∨ pattern = 37 :: (cut pattern ++ [37]) := by
  unfold isWrapped at h
  rw [Bool.and_eq_true, beq_iff_eq, beq_iff_eq] at h
  obtain ⟨hhead, hlast⟩ := h
  obtain ⟨p, rfl⟩ := List.head?_eq_some_iff.mp hhead
  obtain rfl | ⟨q, c, rfl⟩ := p.eq_nil_or_concat
  · exact .inl rfl
  · right
    have hc : c = 37 := by simpa [List.getLast?_cons] using hlast
    subst hc
    rw [List.concat_eq_append, cut_wrapped]

variable {one : Option UInt8} {pattern : Bytes}

/-- The search for what is left of a pattern that the parser accepts. -/
theorem search_cut_iff (hwrapped : isWrapped pattern = true) (hone : one ≠ some 120) :
    (∀ v, cut pattern <:+: v ↔ Matches 37 one pattern v) ↔ Plain 37 one (cut pattern) := by
  obtain rfl | hpattern := isWrapped_cases hwrapped
  · refine iff_of_true (fun v => iff_of_true List.nil_infix Wildcard.matches_many) ?_
    exact ⟨List.not_mem_nil, fun c _ => List.not_mem_nil⟩
  · have h := @Wildcard.search_iff _ 37 one _ (cut pattern) 120 hone
    rwa [← hpattern] at h

theorem getString_setString {pNode : ParseNode} (hstr : pNode.type = .str) (value : Bytes) :
    (pNode.setString value).type = .str ∧ (pNode.setString value).getString = value := by
  cases pNode with
  | null => cases hstr
  | node type op sExpr sValue children => exact ⟨hstr, rfl⟩

theorem newExprNode_ok {op : Operation} {loc : Location} {children : List ParseNode} {s s' : ParseState}
    {pNode : ParseNode} (h : newExprNode op loc children s = .ok pNode s') :
    ∃ sExpr, pNode = node .op op sExpr [] children := by
  unfold newExprNode newParseNode alloc at h
  simp only [Bind.bind, EStateM.bind] at h
  split at h
  · next hsize =>
    split at hsize
    · cases hsize
    · cases h
      exact ⟨_, rfl⟩
  · cases h

theorem likeAction_value {rhs : Rhs} {loc : Location} {s s' : ParseState} {pNode : ParseNode}
    (h : likeAction rhs loc s = .ok (.value pNode) s') : isWrapped (rhs.value 3).getString = true ∧
      ∃ sExpr, pNode = node .op .compLike sExpr [] [rhs.value 1, (rhs.value 3).setString (cut (rhs.value 3).getString)] := by
  unfold likeAction at h
  dsimp only at h
  cases hwrapped : isWrapped (rhs.value 3).getString with
  | false =>
    rw [hwrapped] at h
    cases h
  | true =>
    rw [hwrapped] at h
    refine ⟨rfl, ?_⟩
    simp only [Bool.not_true, Bool.false_eq_true, if_false, assign, Bind.bind, EStateM.bind, StateRules.modify_run] at h
    split at h
    · next hnode =>
      cases h
      exact newExprNode_ok hnode
    · cases h

theorem fromNode_str (conv : Conversions) {type : DBDataType} (htype : getHandler type = .string) {pNode : ParseNode}
    (hstr : pNode.type = .str) : DBDataTypeHandler.fromNode conv type pNode = .ok (.string pNode.getString) := by
  cases type <;> try cases htype
  all_goals
    change DBDataTypeHandler.fromStringNode pNode = _
    unfold DBDataTypeHandler.fromStringNode
    rw [hstr]

variable {σ ρ : Type} {conv : Conversions} {ops : PlanOps σ ρ} {plan plan' : σ} {info : PredicateInfo} {i : Nat}
  {type : DBDataType}

/-- The comparison of a string column with the pattern that is left. -/
theorem addPredicate_like {sExpr : Bytes} {pLeft pRight : ParseNode} (hstr : pRight.type = .str)
    (hadd : addPredicate conv ops [] (node .op .compLike sExpr [] [pLeft, pRight]) plan = .ok ([info], plan'))
    (hleft : info.leftIndex = some i) (hright : info.rightIndex = none) (htype : ops.getResultType plan' i = .ok type)
    (hhandler : getHandler type = .string) : info.op = .compLike ∧ info.rightConst = .string pRight.getString := by
  unfold addPredicate doAddPredicate at hadd
  simp only [ne_eq, not_true_eq_false, if_false, reduceCtorEq, List.length_cons, List.length_nil, List.not_mem_nil] at hadd
  obtain ⟨⟨info', plan1⟩, hcomparison, hok⟩ := bind_eq_ok.mp hadd
  cases hok
  unfold addComparison at hcomparison
  obtain ⟨⟨leftIndex, plan1⟩, hleftIndex, hcomparison⟩ := bind_eq_ok.mp hcomparison
  obtain ⟨⟨rightIndex, plan2⟩, hrightIndex, hcomparison⟩ := bind_eq_ok.mp hcomparison
  dsimp only at hcomparison
  split at hcomparison
  · cases hcomparison
  · obtain ⟨leftConst, -, hcomparison⟩ := bind_eq_ok.mp hcomparison
    obtain ⟨rightConst, hconst, hcomparison⟩ := bind_eq_ok.mp hcomparison
    cases hcomparison
    dsimp only at hleft hright
    subst hleft hright
    refine ⟨rfl, ?_⟩
    unfold constOperand at hconst
    have hisConst : pRight.isConst = true := by simp [isConst, hstr]
    change (if pRight.isConst = true then _ else _) = _ at hconst
    rw [if_pos hisConst] at hconst
    simp only [htype, ok_bind] at hconst
    rw [show ParseNode.getChild _ 1 = pRight from rfl, fromNode_str conv hhandler hstr] at hconst
    cases hconst
    rfl

theorem evaluate_like (hop : info.op = .compLike) (hleft : info.leftIndex = some i) (hright : info.rightIndex = none)
    {p v : Bytes} (hconst : info.rightConst = .string p) (htype : ops.getResultType plan' i = .ok type) {row : ρ}
    (hvalue : ops.getResult plan' row i type = .ok (.string v)) :
    evaluate conv ops plan' row info = .ok (contains v p) := by
  unfold evaluate operand
  rw [hright, hleft]
  simp only [htype, hvalue, hconst, ok_bind, pure_eq_ok, Option.some_or]
  rw [test, if_pos hop]
  rfl

/-- A comparison of a string column with a pattern that the parser accepts gives what the pattern
means exactly when nothing between its outer signs stands for other characters, be it only the sign for
any sequence or also the one for a single character. -/
theorem like_iff {rhs : Rhs} {loc : Location} {s s' : ParseState} {pNode : ParseNode}
    (hparse : likeAction rhs loc s = .ok (.value pNode) s') (hstr : (rhs.value 3).type = .str)
    (hadd : addPredicate conv ops [] pNode plan = .ok ([info], plan'))
    (hleft : info.leftIndex = some i) (hright : info.rightIndex = none) (htype : ops.getResultType plan' i = .ok type)
    (hhandler : getHandler type = .string) (hvalues : ∀ v, ∃ row, ops.getResult plan' row i type = .ok (.string v)) :
    isWrapped (rhs.value 3).getString = true ∧ ∀ one, one = none ∨ one = some 95 →
      ((∀ row v, ops.getResult plan' row i type = .ok (.string v) → ∃ b, evaluate conv ops plan' row info = .ok b ∧
          (b = true ↔ Matches 37 one (rhs.value 3).getString v)) ↔
        Plain 37 one (cut (rhs.value 3).getString)) := by
  obtain ⟨hwrapped, sExpr, rfl⟩ := likeAction_value hparse
  obtain ⟨hop, hconst⟩ := addPredicate_like (getString_setString hstr _).1 hadd hleft hright htype hhandler
  rw [(getString_setString hstr _).2] at hconst
  refine ⟨hwrapped, fun one hone => ?_⟩
  have hne : one ≠ some 120 := by
    obtain rfl | rfl := hone
    · exact nofun
    · decide
  rw [← search_cut_iff hwrapped hne]
  constructor
  · intro h v
    obtain ⟨row, hrow⟩ := hvalues v
    obtain ⟨b, heval, hb⟩ := h row v hrow
    rw [evaluate_like hop hleft hright hconst htype hrow] at heval
    cases heval
    exact (contains_iff v _).symm.trans hb
  · intro h row v hrow
    exact ⟨_, evaluate_like hop hleft hright hconst htype hrow, (contains_iff v _).trans (h v)⟩

def oneString : PlanOps Unit Bytes where
  addProjection _ pNode := .ok (if pNode.type = .name then some 0 else none, ())
  getResultType _ _ := .ok .string
  getResult _ row _ _ := .ok (.string row)

/-- The right side of `a LIKE '..'`, where the texts of the nodes do not matter. -/
def likeRhs (pattern : String) : Rhs :=
  [(node .name .none (bytes "a") (bytes "a") [], ⟨1, 1⟩), (.null, ⟨3, 6⟩),
    (node .str .none [] (bytes pattern) [], ⟨8, 13⟩)]

def likeNode (cut : String) : ParseNode :=
  node .op .compLike [] [] [node .name .none (bytes "a") (bytes "a") [], node .str .none [] (bytes cut) []]

def likeInfo (cut : String) : PredicateInfo := ⟨[], .compLike, some 0, none, .null, .string (bytes cut)⟩

theorem like_iff_ab :
    isWrapped (bytes "%ab%") = true ∧ ∀ one, one = none ∨ one = some 95 →
      ((∀ row v, oneString.getResult () row 0 .string = .ok (.string v) →
          ∃ b, evaluate decimalConversions oneString () row (likeInfo "ab") = .ok b ∧
            (b = true ↔ Matches 37 one (bytes "%ab%") v)) ↔
        Plain 37 one (cut (bytes "%ab%"))) :=
  @like_iff Unit Bytes decimalConversions oneString () () (likeInfo "ab") 0 .string (likeRhs "%ab%") ⟨1, 13⟩
    ParseState.fresh _ (likeNode "ab") rfl rfl rfl rfl rfl rfl rfl fun v => ⟨v, rfl⟩

/-- A sign for any sequence inside a pattern is searched for as a character. -/
theorem like_inside :
    (∃ s, likeAction (likeRhs "%a%b%") ⟨1, 13⟩ ParseState.fresh = .ok (.value (likeNode "a%b")) s) ∧
      addPredicate decimalConversions oneString [] (likeNode "a%b") () = .ok ([likeInfo "a%b"], ()) ∧
      evaluate decimalConversions oneString () (bytes "axb") (likeInfo "a%b") = .ok false ∧
      Matches 37 none (bytes "%a%b%") (bytes "axb") := by
  refine ⟨⟨_, rfl⟩, rfl, by decide, ?_⟩
  exact .many [] (.self (by decide) (.many [120] (.self (by decide) (.many [] .nil))))

end LevelPgServer.FilterPlan
