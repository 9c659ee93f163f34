import LevelPgServer.Execution.QuotedFields
import Mathlib.Logic.Relation

namespace LevelPgServer

open ReadFilePlan (ParseState quote tokens)
open ExceptRules

/-- A `std::string_view` of the line. -/
structure View where
  start : Nat
  length : Nat

def View.read (line : Bytes) (v : View) : Bytes := (line.drop v.start).take v.length

/-- An entry of `m_result`: a string is a view of the line, all else a value of its own. -/
inductive Held
  | view (v : View)
  | value (r : ExecutionResult)

def Held.getResult (line : Bytes) : Held → ExecutionResult
  | .view v => .string (v.read line)
  | .value r => r

/-- What `next` works on; `views` are the tokens handed to `setToken` for a column. -/
structure LineBuffer where
  line : Bytes
  i : Nat := 0
  state : ParseState := .outOfQuote
  targetIndex : Nat := 0
  beginToken : Nat := 0
  views : List View := []
  result : List Held := []

namespace LineBuffer

variable (conv : Conversions) (plan : ReadFilePlan)

def token (s : LineBuffer) : View := ⟨s.beginToken, s.targetIndex - s.beginToken⟩

def hold (pColumn : DBColumnInfo) (v : View) (r : ExecutionResult) : Held :=
  match getHandler pColumn.type with
  | .string => .view v
  | _ => .value r

def hand (s : LineBuffer) (held : Held) : LineBuffer :=
  { s with
    views := s.views ++ [s.token]
    result := s.result ++ [held] }

def setToken (s : LineBuffer) : Fallible LineBuffer :=
  match plan.columns[s.result.length]? with
  | none => .ok s
  | some pColumn => do
    let r ← ReadFilePlan.setToken conv pColumn (s.token.read s.line)
    return s.hand (hold pColumn s.token r)

def moveOn (s : LineBuffer) (state : ParseState) : LineBuffer := { s with i := s.i + 1, state }

def write (s : LineBuffer) (c : UInt8) : LineBuffer :=
  { s with
    line := s.line.set s.targetIndex c
    targetIndex := s.targetIndex + 1 }

def nextToken (s : LineBuffer) : LineBuffer := { s with beginToken := s.targetIndex }

/-- The body of the loop, where `c` is `line[i]`. -/
def body (s : LineBuffer) (c : UInt8) : Fallible LineBuffer :=
  match s.state with
  | .outOfQuote =>
    if c = quote then .ok (s.moveOn .beginQuote)
    else if c = plan.separator then do
      let s ← s.setToken conv plan
      return s.nextToken.moveOn .outOfQuote
    else .ok ((s.write c).moveOn .outOfQuote)
  | .beginQuote => .ok ((s.write c).moveOn (if c = quote then .outOfQuote else .inQuote))
  | .inQuote => if c = quote then .ok (s.moveOn .outOfQuote) else .ok ((s.write c).moveOn .inQuote)

def step (s : LineBuffer) : Option (Fallible LineBuffer) :=
  if s.result.length < plan.columns.length then (s.line[s.i]?).map (s.body conv plan) else none

def scan : Nat → LineBuffer → Fallible LineBuffer
  | 0, s => .ok s
  | n + 1, s =>
    match s.step conv plan with
    | none => .ok s
    | some r => do
      let s ← r
      scan n s

def fill (s : LineBuffer) (row : List ExecutionResult) : LineBuffer :=
  { s with result := s.result ++ row.map .value }

/-- The last token, and the empty one for the columns that are left. -/
def complete (s : LineBuffer) : Fallible LineBuffer := do
  let s ← s.setToken conv plan
  let rest ← ReadFilePlan.setTokens conv (plan.columns.drop s.result.length) []
  return s.fill rest

def next (line : Bytes) : Fallible LineBuffer := do
  let s ← scan conv plan line.length { line }
  s.complete conv plan

/-- What the tokens and the row are when they are read from the line as it is now. -/
def contents (s : LineBuffer) : List Bytes × List ExecutionResult :=
  (s.views.map (View.read s.line), s.result.map (Held.getResult s.line))

def Steps : LineBuffer → LineBuffer → Prop :=
  Relation.ReflTransGen fun s s' => s.step conv plan = some (.ok s')

/-- Reading stands ahead of writing, and writing behind every token that has been handed out. -/
structure Compacts (s : LineBuffer) : Prop where
  begin_le : s.beginToken ≤ s.targetIndex
  target_le : s.targetIndex ≤ s.i
  i_le : s.i ≤ s.line.length
  behind : ∀ v ∈ s.views, v.start + v.length ≤ s.beginToken
  result : ∀ v, .view v ∈ s.result → v ∈ s.views

theorem compacts_start (line : Bytes) : Compacts { line } where
  begin_le := le_rfl
  target_le := le_rfl
  i_le := Nat.zero_le _
  behind _ hv := absurd hv List.not_mem_nil
  result _ hv := absurd hv List.not_mem_nil

variable {s s' : LineBuffer} {c : UInt8}

theorem read_set (line : Bytes) {v : View} {t : Nat} (h : v.start + v.length ≤ t) (c : UInt8) :
    v.read (line.set t c) = v.read line := by
  unfold View.read
  apply List.ext_getElem?
  intro k
  rw [List.getElem?_take, List.getElem?_take]
  split
  · rw [List.getElem?_drop, List.getElem?_drop, List.getElem?_set_ne (by omega)]
  · rfl

theorem token_write (hbegin : s.beginToken ≤ s.targetIndex) (hlt : s.targetIndex < s.line.length) (c : UInt8) :
    (s.write c).token.read (s.write c).line = s.token.read s.line ++ [c] := by
  have hlen : s.targetIndex + 1 - s.beginToken = s.targetIndex - s.beginToken + 1 := by omega
  have hsame : s.token.read (s.line.set s.targetIndex c) = s.token.read s.line :=
    read_set s.line (by simp only [token]; omega) c
  simp only [token, View.read, write] at hsame ⊢
  rw [hlen, List.take_add_one, hsame, List.getElem?_drop, Nat.add_sub_cancel' hbegin, List.getElem?_set_self hlt]
  rfl

theorem contents_write (h : Compacts s) (c : UInt8) : (s.write c).contents = s.contents := by
  have hread : ∀ v ∈ s.views, v.read (s.line.set s.targetIndex c) = v.read s.line := fun v hv =>
    read_set s.line ((h.behind v hv).trans h.begin_le) c
  unfold contents
  apply Prod.ext
  · exact List.map_congr_left hread
  · apply List.map_congr_left
    intro held hheld
    cases held with
    | view v => exact congrArg ExecutionResult.string (hread v (h.result v hheld))
    | value r => rfl

theorem Compacts.moveOn (h : Compacts s) (hi : s.i < s.line.length) (state : ParseState) :
    Compacts (s.moveOn state) where
  begin_le := h.begin_le
  target_le := Nat.le_succ_of_le h.target_le
  i_le := hi
  behind := h.behind
  result := h.result

theorem Compacts.write_moveOn (h : Compacts s) (hi : s.i < s.line.length) (c : UInt8) (state : ParseState) :
    Compacts ((s.write c).moveOn state) where
  begin_le := Nat.le_succ_of_le h.begin_le
  target_le := Nat.succ_le_succ h.target_le
  i_le := by
    simp only [write, LineBuffer.moveOn, List.length_set]
    exact hi
  behind := h.behind
  result := h.result

variable {conv plan}

theorem setToken_cases (h : s.setToken conv plan = .ok s') :
    s' = s ∨ ∃ held, s' = s.hand held ∧ ∀ v, held = .view v → v = s.token := by
  unfold setToken at h
  cases hc : plan.columns[s.result.length]? with
  | none =>
    rw [hc] at h
    cases h
    exact .inl rfl
  | some pColumn =>
    rw [hc] at h
    obtain ⟨r, -, hr⟩ := bind_eq_ok.mp h
    cases hr
    refine .inr ⟨hold pColumn s.token r, rfl, fun v hv => ?_⟩
    unfold hold at hv
    split at hv
    · cases hv
      rfl
    · cases hv

theorem Compacts.nextToken (h : Compacts s) (hs : s.setToken conv plan = .ok s') : Compacts s'.nextToken := by
  obtain rfl | ⟨held, rfl, hheld⟩ := setToken_cases hs
  · exact { h with
      begin_le := le_rfl
      behind := fun v hv => (h.behind v hv).trans h.begin_le }
  · refine ⟨le_rfl, h.target_le, h.i_le, fun v hv => ?_, fun v hv => ?_⟩
    · obtain hv | hv := List.mem_append.mp hv
      · exact (h.behind v hv).trans h.begin_le
      · rw [List.mem_singleton.mp hv]
        exact (Nat.add_sub_cancel' h.begin_le).le
    · obtain hv | hv := List.mem_append.mp hv
      · exact List.mem_append_left _ (h.result v hv)
      · rw [hheld v (List.mem_singleton.mp hv).symm]
        exact List.mem_append_right _ (List.mem_singleton_self _)

theorem step_cases {r : Fallible LineBuffer} (h : s.step conv plan = some r) :
    ∃ c, s.result.length < plan.columns.length ∧ s.line[s.i]? = some c ∧ r = s.body conv plan c := by
  unfold step at h
  split at h
  · next hlt =>
    obtain ⟨c, hc, rfl⟩ := Option.map_eq_some_iff.mp h
    exact ⟨c, hlt, hc, rfl⟩
  · cases h

/-- A pass leaves the invariant and what has been handed out as they are. -/
theorem Compacts.step (h : Compacts s) (hs : s.step conv plan = some (.ok s')) :
    Compacts s' ∧ ∀ v ∈ s.views, v ∈ s'.views ∧ v.read s'.line = v.read s.line := by
  obtain ⟨c, -, hc, hbody⟩ := step_cases hs
  have hi : s.i < s.line.length := (List.getElem?_eq_some_iff.mp hc).1
  have hskip : ∀ state, Compacts (s.moveOn state) ∧
      ∀ v ∈ s.views, v ∈ (s.moveOn state).views ∧ v.read (s.moveOn state).line = v.read s.line :=
    fun state => ⟨h.moveOn hi state, fun v hv => ⟨hv, rfl⟩⟩
  have hwrite : ∀ state, Compacts ((s.write c).moveOn state) ∧
      ∀ v ∈ s.views, v ∈ ((s.write c).moveOn state).views ∧ v.read ((s.write c).moveOn state).line = v.read s.line :=
    fun state => ⟨h.write_moveOn hi c state, fun v hv =>
      ⟨hv, read_set s.line ((h.behind v hv).trans h.begin_le) c⟩⟩
  unfold body at hbody
  cases hstate : s.state with
  | outOfQuote =>
    simp only [hstate] at hbody
    split at hbody
    · cases hbody
      exact hskip _
    · split at hbody
      · obtain ⟨t, ht, hs'⟩ := bind_eq_ok.mp hbody.symm
        cases hs'
        have hnext := h.nextToken ht
        obtain rfl | ⟨held, rfl, -⟩ := setToken_cases ht
        · exact ⟨hnext.moveOn hi _, fun v hv => ⟨hv, rfl⟩⟩
        · exact ⟨hnext.moveOn hi _, fun v hv => ⟨List.mem_append_left _ hv, rfl⟩⟩
      · cases hbody
        exact hwrite _
  | beginQuote =>
    simp only [hstate] at hbody
    cases hbody
    exact hwrite _
  | inQuote =>
    simp only [hstate] at hbody
    split at hbody
    · cases hbody
      exact hskip _
    · cases hbody
      exact hwrite _

theorem Compacts.steps (h : Compacts s) (hs : Steps conv plan s s') :
    Compacts s' ∧ ∀ v ∈ s.views, v ∈ s'.views ∧ v.read s'.line = v.read s.line := by
  induction hs with
  | refl => exact ⟨h, fun v hv => ⟨hv, rfl⟩⟩
  | tail _ hstep ih =>
    obtain ⟨hmid, hviews⟩ := ih
    obtain ⟨hlast, hkeep⟩ := hmid.step hstep
    refine ⟨hlast, fun v hv => ?_⟩
    obtain ⟨hm, hread⟩ := hviews v hv
    obtain ⟨hl, hread'⟩ := hkeep v hm
    exact ⟨hl, hread'.trans hread⟩

/-- The tokens that the machine with a buffer of its own still makes of what has not been read. -/
def pending (plan : ReadFilePlan) (s : LineBuffer) : List Bytes :=
  tokens plan.separator (plan.columns.length - s.result.length) s.state (s.token.read s.line) (s.line.drop s.i)

def expected (conv : Conversions) (plan : ReadFilePlan) (s : LineBuffer) :
    Fallible (List Bytes × List ExecutionResult) := do
  let row ← ReadFilePlan.setTokens conv (plan.columns.drop s.result.length) (s.pending plan)
  return (s.contents.1 ++ (s.pending plan).take (plan.columns.length - s.result.length), s.contents.2 ++ row)

theorem expected_congr (hresult : s'.result.length = s.result.length) (hcontents : s'.contents = s.contents)
    (hpending : s'.pending plan = s.pending plan) : s'.expected conv plan = s.expected conv plan := by
  unfold expected
  rw [hresult, hcontents, hpending]

theorem contents_setToken {pColumn : DBColumnInfo} {r : ExecutionResult}
    (hr : ReadFilePlan.setToken conv pColumn (s.token.read s.line) = .ok r) :
    (s.hand (hold pColumn s.token r)).contents = (s.contents.1 ++ [s.token.read s.line], s.contents.2 ++ [r]) := by
  have hheld : (hold pColumn s.token r).getResult s.line = r := by
    unfold hold
    cases htype : getHandler pColumn.type with
    | string =>
      unfold ReadFilePlan.setToken at hr
      split at hr
      · cases hr
      · have hstring : DBDataTypeHandler.fromString conv pColumn.type (s.token.read s.line) =
            .ok (.string (s.token.read s.line)) := by
          cases ht : pColumn.type <;> rw [ht] at htype <;> first | rfl | cases htype
        rw [hstring] at hr
        cases hr
        rfl
    | int type => rfl
    | float type => rfl
  simp only [contents, hand, List.map_append, List.map_cons, List.map_nil, hheld]

theorem contents_fill (row : List ExecutionResult) :
    (s.fill row).contents = (s.contents.1, s.contents.2 ++ row) := by
  have hvalues : (row.map Held.value).map (Held.getResult s.line) = row := by
    rw [List.map_map]
    exact List.map_id row
  simp only [contents, fill, List.map_append, hvalues]

theorem complete_contents (hpending : s.pending plan = [s.token.read s.line]) :
    (do
      let s ← s.complete conv plan
      return s.contents) = s.expected conv plan := by
  unfold expected complete setToken
  rw [hpending]
  cases hc : plan.columns[s.result.length]? with
  | none =>
    have hle : plan.columns.length ≤ s.result.length := List.getElem?_eq_none_iff.mp hc
    simp [List.drop_eq_nil_of_le hle, Nat.sub_eq_zero_of_le hle, ReadFilePlan.setTokens, contents, fill]
  | some pColumn =>
    obtain ⟨hlt, rfl⟩ := List.getElem?_eq_some_iff.mp hc
    rw [List.drop_eq_getElem_cons hlt]
    simp only [ReadFilePlan.setTokens, List.headD_cons, List.tail_cons]
    cases hr : ReadFilePlan.setToken conv plan.columns[s.result.length] (s.token.read s.line) with
    | error e => rfl
    | ok r =>
      have hone : plan.columns.length - s.result.length = plan.columns.length - s.result.length - 1 + 1 := by omega
      have hlen : (s.hand (hold plan.columns[s.result.length] s.token r)).result.length = s.result.length + 1 := by
        simp [hand]
      simp only [ok_bind, pure_eq_ok, hlen]
      cases ReadFilePlan.setTokens conv (plan.columns.drop (s.result.length + 1)) [] with
      | error e => rfl
      | ok rest =>
        simp only [ok_bind]
        rw [contents_fill, contents_setToken hr, hone, List.take_succ_cons, List.take_nil]
        simp only [List.append_assoc, List.singleton_append]

theorem tokens_full (separator : UInt8) (state : ParseState) (token line : Bytes) :
    tokens separator 0 state token line = [token] := by
  cases line with
  | nil => rfl
  | cons c line => rfl

theorem pending_of_stop (h : s.step conv plan = none) : s.pending plan = [s.token.read s.line] := by
  unfold step at h
  unfold pending
  split at h
  · rw [List.drop_eq_nil_of_le (List.getElem?_eq_none_iff.mp (Option.map_eq_none_iff.mp h))]
    rfl
  · next hfull =>
    rw [Nat.sub_eq_zero_of_le (Nat.le_of_not_lt hfull)]
    exact tokens_full _ _ _ _

theorem pending_write (h : Compacts s) (hi : s.i < s.line.length) (c : UInt8) (state : ParseState) :
    ((s.write c).moveOn state).pending plan =
      tokens plan.separator (plan.columns.length - s.result.length) state (s.token.read s.line ++ [c])
        (s.line.drop (s.i + 1)) := by
  have hdrop : (s.line.set s.targetIndex c).drop (s.i + 1) = s.line.drop (s.i + 1) :=
    List.drop_set_of_lt (Nat.lt_succ_of_le h.target_le)
  rw [← token_write h.begin_le (h.target_le.trans_lt hi) c, ← hdrop]
  rfl

theorem pending_nextToken (held : Held) :
    ((s.hand held).nextToken.moveOn .outOfQuote).pending plan =
      tokens plan.separator (plan.columns.length - s.result.length - 1) .outOfQuote [] (s.line.drop (s.i + 1)) := by
  have hempty : (LineBuffer.token (LineBuffer.nextToken s)).read s.line = [] := by
    simp only [token, nextToken, View.read, Nat.sub_self, List.take_zero]
  rw [← hempty]
  simp only [pending, hand, nextToken, moveOn, List.length_append, List.length_singleton, Nat.sub_add_eq]
  rfl

/-- The token before a separator goes to its column, and the machine goes on behind it. -/
theorem expected_hand {rest : List Bytes} (hlt : s.result.length < plan.columns.length)
    (hpending : s.pending plan = s.token.read s.line :: rest) (hrest : ∀ held,
      ((s.hand held).nextToken.moveOn .outOfQuote).pending plan = rest) :
    (do
      let s ← s.setToken conv plan
      (s.nextToken.moveOn .outOfQuote).expected conv plan) = s.expected conv plan := by
  have hcolumn : plan.columns[s.result.length]? = some plan.columns[s.result.length] := List.getElem?_eq_getElem hlt
  have hone : plan.columns.length - s.result.length = plan.columns.length - (s.result.length + 1) + 1 := by omega
  unfold setToken
  rw [hcolumn]
  conv_rhs => unfold expected
  rw [hpending, List.drop_eq_getElem_cons hlt]
  simp only [ReadFilePlan.setTokens, List.headD_cons, List.tail_cons]
  cases hr : ReadFilePlan.setToken conv plan.columns[s.result.length] (s.token.read s.line) with
  | error e => rfl
  | ok r =>
    simp only [ok_bind, pure_eq_ok]
    unfold expected
    rw [hrest]
    have hlen : ((s.hand (hold plan.columns[s.result.length] s.token r)).nextToken.moveOn .outOfQuote).result.length =
        s.result.length + 1 := by simp [hand, nextToken, moveOn]
    have hcontents : ((s.hand (hold plan.columns[s.result.length] s.token r)).nextToken.moveOn .outOfQuote).contents =
        (s.contents.1 ++ [s.token.read s.line], s.contents.2 ++ [r]) := contents_setToken hr
    rw [hlen, hcontents]
    cases ReadFilePlan.setTokens conv (plan.columns.drop (s.result.length + 1)) rest with
    | error e => rfl
    | ok row =>
      simp only [ok_bind, pure_eq_ok]
      rw [hone, List.take_succ_cons]
      simp only [List.append_assoc, List.singleton_append]

theorem scan_complete (n : Nat) (h : Compacts s) (hn : s.line.length - s.i ≤ n) :
    (do
      let s ← scan conv plan n s
      let s ← s.complete conv plan
      return s.contents) = s.expected conv plan := by
  induction n generalizing s with
  | zero =>
    have hend : s.line.length ≤ s.i := by omega
    refine complete_contents ?_
    unfold pending
    rw [List.drop_eq_nil_of_le hend]
    rfl
  | succ n ih =>
    unfold scan
    cases hstep : s.step conv plan with
    | none => exact complete_contents (pending_of_stop hstep)
    | some r =>
      obtain ⟨c, hlt, hc, rfl⟩ := step_cases hstep
      obtain ⟨hi, hget⟩ := List.getElem?_eq_some_iff.mp hc
      have hroom : plan.columns.length - s.result.length ≠ 0 := by omega
      have hdrop : s.line.drop s.i = c :: s.line.drop (s.i + 1) := by rw [List.drop_eq_getElem_cons hi, hget]
      have hskip : ∀ state, (s.moveOn state).pending plan = s.pending plan →
          (do
            let s ← scan conv plan n (s.moveOn state)
            let s ← s.complete conv plan
            return s.contents) = s.expected conv plan := fun state hp =>
        (ih (h.moveOn hi state) (by simp only [moveOn]; omega)).trans (expected_congr rfl rfl hp)
      have hwrite : ∀ state, ((s.write c).moveOn state).pending plan = s.pending plan →
          (do
            let s ← scan conv plan n ((s.write c).moveOn state)
            let s ← s.complete conv plan
            return s.contents) = s.expected conv plan := fun state hp =>
        (ih (h.write_moveOn hi c state) (by simp only [moveOn, write, List.length_set]; omega)).trans
          (expected_congr rfl (contents_write h c) hp)
      have hp : s.pending plan = tokens plan.separator (plan.columns.length - s.result.length) s.state
          (s.token.read s.line) (c :: s.line.drop (s.i + 1)) := by
        rw [← hdrop]
        rfl
      unfold body
      cases hstate : s.state with
      | outOfQuote =>
        rw [hstate, tokens, if_neg hroom] at hp
        by_cases hquote : c = quote
        · simp only [if_pos hquote, ok_bind] at hp ⊢
          exact hskip _ hp.symm
        · by_cases hsep : c = plan.separator
          · simp only [if_neg hquote, if_pos hsep] at hp ⊢
            rw [← expected_hand hlt hp fun held => pending_nextToken held]
            cases ht : s.setToken conv plan with
            | error e => rfl
            | ok t =>
              simp only [ok_bind, pure_eq_ok]
              refine ih ((h.nextToken ht).moveOn ?_ _) ?_
              · obtain rfl | ⟨held, rfl, -⟩ := setToken_cases ht
                · exact hi
                · exact hi
              · obtain rfl | ⟨held, rfl, -⟩ := setToken_cases ht
                · simp only [moveOn, nextToken]
                  omega
                · simp only [moveOn, nextToken, hand]
                  omega
          · simp only [if_neg hquote, if_neg hsep, ok_bind] at hp ⊢
            exact hwrite _ ((pending_write h hi c _).trans hp.symm)
      | beginQuote =>
        rw [hstate, tokens, if_neg hroom] at hp
        exact hwrite _ ((pending_write h hi c _).trans hp.symm)
      | inQuote =>
        rw [hstate, tokens, if_neg hroom] at hp
        by_cases hquote : c = quote
        · simp only [if_pos hquote, ok_bind] at hp ⊢
          exact hskip _ hp.symm
        · simp only [if_neg hquote, ok_bind] at hp ⊢
          exact hwrite _ ((pending_write h hi c _).trans hp.symm)

/-- Scanning the line in place never writes past what has been read, never changes a token that
has been handed out, and gives the tokens and the row of the machine with a buffer of its own. -/
theorem next_refines (conv : Conversions) (plan : ReadFilePlan) (line : Bytes) :
    (∀ s, Steps conv plan { line } s → s.beginToken ≤ s.targetIndex ∧ s.targetIndex ≤ s.i ∧ s.i ≤ s.line.length) ∧
      (∀ s s', Steps conv plan { line } s → Steps conv plan s s' → ∀ v ∈ s.views, v.read s'.line = v.read s.line) ∧
      (next conv plan line).map contents = (plan.readLine conv line).map fun row =>
        ((tokens plan.separator plan.columns.length .outOfQuote [] line).take plan.columns.length, row) := by
  refine ⟨fun s hs => ?_, fun s s' hs hs' v hv => ?_, ?_⟩
  · have h := ((compacts_start line).steps hs).1
    exact ⟨h.begin_le, h.target_le, h.i_le⟩
  · exact ((((compacts_start line).steps hs).1.steps hs').2 v hv).2
  · have h := @scan_complete conv plan { line } line.length (compacts_start line) (Nat.sub_le _ _)
    have hnext : (next conv plan line).map contents = LineBuffer.expected conv plan { line } := by
      rw [← h]
      unfold next
      cases scan conv plan line.length { line } with
      | error e => rfl
      | ok s =>
        simp only [ok_bind]
        cases s.complete conv plan with
        | error e => rfl
        | ok s => rfl
    rw [hnext]
    unfold expected ReadFilePlan.readLine
    change (do
      let row ← ReadFilePlan.setTokens conv plan.columns (tokens plan.separator plan.columns.length .outOfQuote [] line)
      return (_, _)) = _
    cases ReadFilePlan.setTokens conv plan.columns
      (tokens plan.separator plan.columns.length .outOfQuote [] line) with
    | error e => rfl
    | ok row => rfl

end LineBuffer

end LevelPgServer
