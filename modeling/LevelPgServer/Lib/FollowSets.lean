import LevelPgServer.Lib.ParseTree

/-! The tokens that the parts of a derivation can start with, and those that can follow them. -/

namespace LevelPgServer

namespace ParseTree

variable {N α : Type}

/-- The first token of some trees in front of a token `u`. -/
def next (Ts : List (ParseTree N α)) (u : Nat) : Nat := ((Ts.flatMap word).map Prod.fst).headD u

@[simp] theorem next_nil (u : Nat) : next ([] : List (ParseTree N α)) u = u := rfl

theorem next_append (Ts Ts' : List (ParseTree N α)) (u : Nat) : next (Ts ++ Ts') u = next Ts (next Ts' u) := by
  unfold next
  rw [List.flatMap_append, List.map_append]
  cases Ts.flatMap word <;> rfl

theorem next_cons (T : ParseTree N α) (Ts : List (ParseTree N α)) (u : Nat) :
    next (T :: Ts) u = next [T] (next Ts u) := next_append [T] Ts u

@[simp] theorem next_token (t : Nat) (a : α) (Ts : List (ParseTree N α)) (u : Nat) : next (.token t a :: Ts) u = t := by
  rw [next_cons, next, List.flatMap_singleton, word_token]
  rfl

theorem next_node (r : Nat) (B : N) (a : α) (children : List (ParseTree N α)) (u : Nat) :
    next [.node r B a children] u = next children u := by
  rw [next, List.flatMap_singleton, word_node, next]

end ParseTree

/-- Sets of tokens that are closed under the rules of a grammar. -/
structure FollowSets {N : Type} (rules : Nat → Option (ContextFreeRule Nat N)) where
  nullable : N → Bool
  starts : N → List Nat
  follow : N → List Nat

namespace FollowSets

open ParseTree

variable {N α : Type} {rules : Nat → Option (ContextFreeRule Nat N)} (F : FollowSets rules)

/-- The tokens that some symbols can start with when the tokens `us` can stand behind them. -/
def firsts : List (Symbol Nat N) → List Nat → List Nat
  | [], us => us
  | .terminal t :: _, _ => [t]
  | .nonterminal B :: Xs, us => F.starts B ++ if F.nullable B then firsts Xs us else []

def vanish : List (Symbol Nat N) → Bool
  | [] => true
  | .terminal _ :: _ => false
  | .nonterminal B :: Xs => F.nullable B && vanish Xs

structure Closed : Prop where
  nullable_rule : ∀ r R, rules r = some R → F.vanish R.output = true → F.nullable R.input = true
  starts_rule : ∀ r R, rules r = some R → ∀ t ∈ F.firsts R.output [], t ∈ F.starts R.input
  follow_rule : ∀ r R, rules r = some R → ∀ front C rest, R.output = front ++ .nonterminal C :: rest →
    ∀ t ∈ F.firsts rest (F.follow R.input), t ∈ F.follow C

variable {F}

theorem mem_firsts {Xs : List (Symbol Nat N)} {us : List Nat} {t : Nat} :
    t ∈ F.firsts Xs us ↔ t ∈ F.firsts Xs [] ∨ F.vanish Xs = true ∧ t ∈ us := by
  induction Xs with
  | nil => simp [firsts, vanish]
  | cons X Xs ih =>
    cases X with
    | terminal => simp [firsts, vanish]
    | nonterminal B => cases hB : F.nullable B <;> simp [firsts, vanish, hB, ih, or_assoc]

variable {reads : Nat → α → Prop} {builds : Nat → List α → α → Prop}

theorem next_mem_firsts {Ts : List (ParseTree N α)} {us : List Nat} {u : Nat}
    (h : ∀ T ∈ Ts, ∀ u, next [T] u ∈ F.firsts [T.root] [u]) (hu : u ∈ us) : next Ts u ∈ F.firsts (Ts.map root) us := by
  induction Ts with
  | nil => exact hu
  | cons T Ts ih =>
    have hfirst := h T List.mem_cons_self (next Ts u)
    have hrest := ih fun T' hT' => h T' (List.mem_cons_of_mem T hT')
    rw [next_cons, List.map_cons]
    cases T with
    | token t a =>
      rw [next_token]
      exact List.mem_singleton.mpr rfl
    | node r B a children =>
      rw [root, firsts] at hfirst ⊢
      obtain hstarts | hnull := List.mem_append.mp hfirst
      · exact List.mem_append_left _ hstarts
      · refine List.mem_append_right _ ?_
        split at hnull
        case isTrue hB =>
          rw [firsts] at hnull
          rw [if_pos hB, List.mem_singleton.mp hnull]
          exact hrest
        case isFalse => cases hnull

theorem Closed.next_tree (hF : F.Closed) {T : ParseTree N α} (h : T.Valid rules reads builds) (u : Nat) :
    next [T] u ∈ F.firsts [T.root] [u] := by
  induction h generalizing u with
  | token =>
    rw [next_token]
    exact List.mem_singleton.mpr rfl
  | @node r B a children hrule _ _ ih =>
    have hmem := next_mem_firsts ih (List.mem_singleton.mpr rfl : u ∈ [u])
    rw [next_node, root, firsts]
    obtain hfirsts | ⟨hvanish, hu⟩ := mem_firsts.mp hmem
    · exact List.mem_append_left _ (hF.starts_rule r _ hrule _ hfirsts)
    · rw [if_pos (hF.nullable_rule r _ hrule hvanish)]
      exact List.mem_append_right _ hu

/-- What stands in front of a tokens that can follow a node can follow each of its parts. -/
theorem Closed.next_follow (hF : F.Closed) {r : Nat} {B C : N} {front rest : List (ParseTree N α)} {T : ParseTree N α}
    (hrule : rules r = some ⟨B, (front ++ T :: rest).map root⟩) (hvalid : ∀ T ∈ rest, T.Valid rules reads builds)
    (hroot : T.root = .nonterminal C) {u : Nat} (hu : u ∈ F.follow B) : next rest u ∈ F.follow C := by
  rw [List.map_append, List.map_cons, hroot] at hrule
  exact hF.follow_rule r _ hrule _ C _ rfl _ (next_mem_firsts (fun T hT u => hF.next_tree (hvalid T hT) u) hu)

end FollowSets

end LevelPgServer
