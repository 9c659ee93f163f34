import Mathlib.Computability.ContextFreeGrammar

/-! Derivation trees of a grammar whose rules are numbered, with a value at each node. -/

namespace LevelPgServer

/-- Tokens at the leaves, and at each other node the number and the left side of a rule. -/
inductive ParseTree (N α : Type)
  | token (t : Nat) (a : α)
  | node (r : Nat) (B : N) (a : α) (children : List (ParseTree N α))

namespace ParseTree

variable {N α : Type}

def attr : ParseTree N α → α
  | token _ a => a
  | node _ _ a _ => a

def root : ParseTree N α → Symbol Nat N
  | token t _ => .terminal t
  | node _ B _ _ => .nonterminal B

@[simp] theorem root_token (t : Nat) (a : α) : (token t a : ParseTree N α).root = .terminal t := rfl

@[simp] theorem root_node (r : Nat) (B : N) (a : α) (children : List (ParseTree N α)) :
    (node r B a children).root = .nonterminal B := rfl

def word : ParseTree N α → List (Nat × α)
  | token t a => [(t, a)]
  | node _ _ _ children => children.flatMap word
  termination_by T => sizeOf T

@[simp] theorem word_token (t : Nat) (a : α) : (token t a : ParseTree N α).word = [(t, a)] := by rw [word]

@[simp] theorem word_node (r : Nat) (B : N) (a : α) (children : List (ParseTree N α)) :
    (node r B a children).word = children.flatMap word := by rw [word]

theorem induct {motive : ParseTree N α → Prop} (token : ∀ t a, motive (.token t a))
    (node : ∀ r B a children, (∀ T ∈ children, motive T) → motive (.node r B a children)) : ∀ T, motive T
  | .token t a => token t a
  | .node r B a children => node r B a children fun T _ => induct token node T
  termination_by T => sizeOf T

/-- The rules and the tokens of a tree, without its values. -/
def shape : ParseTree N α → ParseTree N Unit
  | token t _ => token t ()
  | node r B _ children => node r B () (children.map shape)
  termination_by T => sizeOf T

/-- Each node is an instance of its rule, with a value that its children determine. -/
inductive Valid (rules : Nat → Option (ContextFreeRule Nat N)) (reads : Nat → α → Prop)
    (builds : Nat → List α → α → Prop) : ParseTree N α → Prop
  | token {t : Nat} {a : α} (h : reads t a) : Valid rules reads builds (.token t a)
  | node {r : Nat} {B : N} {a : α} {children : List (ParseTree N α)} (hrule : rules r = some ⟨B, children.map root⟩)
      (hbuilds : builds r (children.map attr) a) (hchildren : ∀ T ∈ children, Valid rules reads builds T) :
      Valid rules reads builds (.node r B a children)

section Derives

variable {G : ContextFreeGrammar Nat} {rules : Nat → Option (ContextFreeRule Nat G.NT)} {reads : Nat → α → Prop}
  {builds : Nat → List α → α → Prop}

theorem derives_of_forall {Ts : List (ParseTree G.NT α)}
    (h : ∀ T ∈ Ts, G.Derives [T.root] (T.word.map fun x => .terminal x.1)) :
    G.Derives (Ts.map root) ((Ts.flatMap word).map fun x => .terminal x.1) := by
  induction Ts with
  | nil => exact .refl _
  | cons T Ts ih =>
    have hfirst := (h T List.mem_cons_self).append_right (Ts.map root)
    have hrest := ih fun T' hT' => h T' (List.mem_cons_of_mem T hT')
    rw [List.flatMap_cons, List.map_append]
    exact hfirst.trans (hrest.append_left _)

theorem Valid.derives (hrules : ∀ r R, rules r = some R → R ∈ G.rules) {T : ParseTree G.NT α}
    (h : T.Valid rules reads builds) : G.Derives [T.root] (T.word.map fun x => .terminal x.1) := by
  induction h with
  | token =>
    rw [word_token]
    exact .refl _
  | @node r B a children hrule _ _ ih =>
    have hproduces : G.Produces [.nonterminal B] (children.map root) := by
      have hrewrites := ContextFreeRule.Rewrites.input_output (r := ⟨B, children.map root⟩)
      exact ⟨_, hrules r _ hrule, hrewrites⟩
    rw [word_node]
    exact hproduces.trans_derives (derives_of_forall ih)

theorem exists_of_derives (hrules : ∀ R ∈ G.rules, ∃ r, rules r = some R) (hreads : ∀ t, ∃ a, reads t a)
    (hbuilds : ∀ r as, ∃ a, builds r as a) {Xs : List (Symbol Nat G.NT)} {w : List Nat}
    (h : G.Derives Xs (w.map Symbol.terminal)) :
    ∃ Ts : List (ParseTree G.NT α), Ts.map root = Xs ∧ (∀ T ∈ Ts, T.Valid rules reads builds) ∧
      (Ts.flatMap word).map Prod.fst = w := by
  induction h using Relation.ReflTransGen.head_induction_on with
  | refl =>
    choose a ha using hreads
    refine ⟨w.map fun t => .token t (a t), by simp [root], ?_, ?_⟩
    · intro T hT
      obtain ⟨t, -, rfl⟩ := List.mem_map.mp hT
      exact .token (ha t)
    · simp [List.flatMap_map, List.map_flatMap]
  | head hproduces _ ih =>
    obtain ⟨R, hR, hrewrites⟩ := hproduces
    obtain ⟨p, q, rfl, rfl⟩ := hrewrites.exists_parts
    obtain ⟨Ts, hroots, hvalid, hword⟩ := ih
    obtain ⟨front, back, rfl, hfront, hback⟩ := List.map_eq_append_iff.mp hroots
    obtain ⟨before, children, rfl, hbefore, hchildren⟩ := List.map_eq_append_iff.mp hfront
    obtain ⟨r, hr⟩ := hrules R hR
    obtain ⟨a, ha⟩ := hbuilds r (children.map attr)
    refine ⟨before ++ [.node r R.input a children] ++ back, ?_, ?_, ?_⟩
    · simp [hbefore, hback, root]
    · intro T hT
      obtain hT | hT := List.mem_append.mp hT
      · obtain hT | hT := List.mem_append.mp hT
        · exact hvalid T (by simp [hT])
        · obtain rfl := List.mem_singleton.mp hT
          exact .node (by rw [hr, hchildren]) ha fun T hT => hvalid T (by simp [hT])
      · exact hvalid T (by simp [hT])
    · simpa using hword

end Derives

end ParseTree

end LevelPgServer
