import LevelPgServer.Lib.Lalr
import LevelPgServer.Lib.FollowSets

/-! The shifts and the reductions that read a derivation tree: where the tables allow them, the driver makes them
and no others. -/

namespace LevelPgServer

namespace Lalr

inductive Op
  | shift (t : Nat)
  | reduce (r : Nat)

def Op.token : Op → Option Nat
  | .shift t => some t
  | .reduce _ => none

def tokens (ops : List Op) : List Nat := ops.filterMap Op.token

@[simp] theorem tokens_nil : tokens [] = [] := rfl

@[simp] theorem tokens_shift (t : Nat) (ops : List Op) : tokens (.shift t :: ops) = t :: tokens ops := rfl

@[simp] theorem tokens_reduce (r : Nat) (ops : List Op) : tokens (.reduce r :: ops) = tokens ops := rfl

@[simp] theorem tokens_append (ops ops' : List Op) : tokens (ops ++ ops') = tokens ops ++ tokens ops' := by
  rw [tokens, List.filterMap_append, tokens, tokens]

end Lalr

namespace ParseTree

open Lalr

variable {N α : Type}

def script : ParseTree N α → List Op
  | token t _ => [.shift t]
  | node r _ _ children => children.flatMap script ++ [.reduce r]
  termination_by T => sizeOf T

@[simp] theorem script_token (t : Nat) (a : α) : (token t a : ParseTree N α).script = [.shift t] := by rw [script]

@[simp] theorem script_node (r : Nat) (B : N) (a : α) (children : List (ParseTree N α)) :
    (node r B a children).script = children.flatMap script ++ [.reduce r] := by rw [script]

theorem tokens_scripts {Ts : List (ParseTree N α)} (h : ∀ T ∈ Ts, tokens T.script = T.word.map Prod.fst) :
    tokens (Ts.flatMap script) = (Ts.flatMap word).map Prod.fst := by
  induction Ts with
  | nil => rfl
  | cons T Ts ih =>
    rw [List.flatMap_cons, List.flatMap_cons, tokens_append, List.map_append, h T List.mem_cons_self,
      ih fun T' hT' => h T' (List.mem_cons_of_mem T hT')]

theorem tokens_script (T : ParseTree N α) : tokens T.script = T.word.map Prod.fst := by
  induction T using induct with
  | token t a => simp
  | node r B a children ih =>
    rw [script_node, tokens_append, tokens_scripts ih, word_node, tokens_reduce, tokens_nil, List.append_nil]

/-! A script has one tree only. -/

variable {rules : Nat → Option (ContextFreeRule Nat N)} {reads : Nat → α → Prop} {builds : Nat → List α → α → Prop}

theorem shapes_of_scripts {Ts Ts' : List (ParseTree N α)} {xs ys : List Op} (hlen : Ts.length = Ts'.length)
    (htree : ∀ T ∈ Ts, ∀ T' ∈ Ts', ∀ xs ys, xs ++ T.script = ys ++ T'.script → xs = ys ∧ T.shape = T'.shape)
    (h : xs ++ Ts.flatMap script = ys ++ Ts'.flatMap script) : xs = ys ∧ Ts.map shape = Ts'.map shape := by
  induction Ts using List.reverseRecOn generalizing Ts' xs ys with
  | nil =>
    obtain rfl := List.length_eq_zero_iff.mp hlen.symm
    simpa using h
  | append_singleton Ts T ih =>
    obtain rfl | ⟨Ts', T', rfl⟩ := List.eq_nil_or_concat' Ts'
    · simp at hlen
    · rw [List.flatMap_append, List.flatMap_append, List.flatMap_singleton, List.flatMap_singleton, ← List.append_assoc,
        ← List.append_assoc] at h
      obtain ⟨hrest, hshape⟩ := htree T (by simp) T' (by simp) _ _ h
      obtain ⟨hxs, hshapes⟩ := ih (by simpa using hlen)
        (fun T hT T' hT' => htree T (by simp [hT]) T' (by simp [hT'])) hrest
      exact ⟨hxs, by simp [hshapes, hshape]⟩

theorem Valid.shape_of_script {T T' : ParseTree N α} (hT : T.Valid rules reads builds)
    (hT' : T'.Valid rules reads builds)
    {xs ys : List Op} (h : xs ++ T.script = ys ++ T'.script) : xs = ys ∧ T.shape = T'.shape := by
  induction hT generalizing T' xs ys with
  | @token t a _ =>
    cases hT' with
    | token =>
      rw [script_token, script_token] at h
      obtain ⟨hxs, hop⟩ := List.append_inj' h rfl
      cases hop
      exact ⟨hxs, by rw [shape, shape]⟩
    | node =>
      rw [script_token, script_node, ← List.append_assoc] at h
      cases (List.append_inj' h rfl).2
  | @node r B a children hrule _ _ ih =>
    cases hT' with
    | token =>
      rw [script_token, script_node, ← List.append_assoc] at h
      cases (List.append_inj' h rfl).2
    | @node r' B' a' children' hrule' _ hchildren' =>
      rw [script_node, script_node, ← List.append_assoc, ← List.append_assoc] at h
      obtain ⟨hscripts, hop⟩ := List.append_inj' h rfl
      obtain rfl : r = r' := Op.reduce.inj (List.cons.inj hop).1
      obtain ⟨rfl, hroots⟩ := ContextFreeRule.mk.inj (Option.some.inj (hrule.symm.trans hrule'))
      have hlen : children.length = children'.length := by simpa using congrArg List.length hroots
      obtain ⟨hxs, hshapes⟩ := shapes_of_scripts hlen
        (fun T hT T' hT' xs ys h => ih T hT (hchildren' T' hT') h) hscripts
      exact ⟨hxs, by rw [shape, shape, hshapes]⟩

end ParseTree

namespace Lalr

variable {ε σ V L N α : Type} {A : Lalr} {accepts : Nat → Prop} {s : Nat} {ss : List Nat} {ops ops' : List Op}

/-- On the stack `ss` the tables allow exactly these steps, if the next tokens are those that are shifted. -/
inductive Follows (A : Lalr) (accepts : Nat → Prop) : List Nat → List Op → Prop
  | shift {s t s' : Nat} {ss : List Nat} {ops : List Op} (hfinal : s ≠ A.final) (hstate : A.consistent s = false)
      (hshift : A.shift s t = some s') (hrest : Follows A accepts (s' :: s :: ss) ops) :
      Follows A accepts (s :: ss) (.shift t :: ops)
  | reduce {s r base : Nat} {ss rest : List Nat} {ops : List Op} (hfinal : s ≠ A.final) (hreduce : A.reduce s = some r)
      (hquiet : A.consistent s = true ∨ ∃ t ∈ (tokens ops).head?, A.shift s t = none)
      (hdrop : (s :: ss).drop (A.length r) = base :: rest) (hgoes : ¬ accepts r)
      (hrest : Follows A accepts (A.goto base (A.lhs r) :: base :: rest) ops) :
      Follows A accepts (s :: ss) (.reduce r :: ops)
  | accept {s r : Nat} {ss : List Nat} (hfinal : s ≠ A.final) (hstate : A.consistent s = true)
      (hreduce : A.reduce s = some r) (haccepts : accepts r) : Follows A accepts (s :: ss) [.reduce r]

theorem Follows.unique (h : Follows A accepts ss ops) (h' : Follows A accepts ss ops')
    (heq : tokens ops = tokens ops') :
    ops = ops' := by
  induction h generalizing ops' with
  | @shift s t s' ss ops _ hstate hshift _ ih =>
    cases h' with
    | @shift _ t' _ _ ops' _ _ hshift' hrest' =>
      obtain ⟨rfl, htokens⟩ := List.cons.inj heq
      obtain rfl := Option.some.inj (hshift.symm.trans hshift')
      rw [ih hrest' htokens]
    | reduce _ _ hquiet =>
      obtain hstate' | ⟨t', ht', hnone⟩ := hquiet
      · rw [hstate] at hstate'
        cases hstate'
      · rw [tokens_reduce, tokens_shift] at heq
        rw [← heq] at ht'
        obtain rfl := Option.some.inj ht'
        rw [hshift] at hnone
        cases hnone
    | accept => cases heq
  | @reduce s r base ss rest ops _ hreduce hquiet hdrop hgoes _ ih =>
    cases h' with
    | shift _ hstate' hshift' =>
      obtain hstate | ⟨t, ht, hnone⟩ := hquiet
      · rw [hstate] at hstate'
        cases hstate'
      · rw [tokens_reduce, tokens_shift] at heq
        rw [heq] at ht
        obtain rfl := Option.some.inj ht
        rw [hshift'] at hnone
        cases hnone
    | reduce _ hreduce' _ hdrop' _ hrest' =>
      obtain rfl := Option.some.inj (hreduce.symm.trans hreduce')
      obtain ⟨rfl, rfl⟩ := List.cons.inj (hdrop.symm.trans hdrop')
      rw [ih hrest' heq]
    | accept _ _ hreduce' haccepts' =>
      obtain rfl := Option.some.inj (hreduce.symm.trans hreduce')
      exact (hgoes haccepts').elim
  | accept _ _ hreduce haccepts =>
    cases h' with
    | shift => cases heq
    | reduce _ hreduce' _ _ hgoes' =>
      obtain rfl := Option.some.inj (hreduce.symm.trans hreduce')
      exact (hgoes' haccepts).elim
    | accept _ _ hreduce' =>
      obtain rfl := Option.some.inj (hreduce.symm.trans hreduce')
      rfl

/-! What the driver does where the scanner gives the tokens of the script. -/

/-- What is known of the tokens that the scanner will give. -/
structure Supply (acts : Actions ε σ V L) (accepts : Nat → Prop) where
  ahead : σ → List Nat → Prop
  lex : ∀ env t ts u env', ahead env (t :: ts) → acts.lex env = .ok u env' →
    ∃ ts', u.toList ++ ts' = t :: ts ∧ ahead env' ts'
  reduce : ∀ env ts r as loc v env', ahead env ts → acts.reduce r as loc env = .ok (.value v) env' →
    ahead env' ts ∧ ¬ accepts r

variable {acts : Actions ε σ V L} {D : Supply acts accepts} {c c' : Config σ V L}

structure Plays (A : Lalr) (D : Supply acts accepts) (c : Config σ V L) (ops : List Op) : Prop where
  follows : Follows A accepts (c.stack.map Frame.state) ops
  supply : ∃ ts, c.lookahead.toList ++ ts = tokens ops ∧ D.ahead c.env ts

/-- What the driver is told to do is the next step of the script, or to read the token that decides it. -/
theorem Plays.todo (h : Plays A D c ops) :
    A.todo c = .exhausted ∨ (A.todo c = .lex ∧ c.lookahead = none ∧ tokens ops ≠ []) ∨
      (∃ t s ops', ops = .shift t :: ops' ∧ A.todo c = .shift s ∧ c.lookahead = some t ∧
        Follows A accepts (s :: c.stack.map Frame.state) ops') ∨
      ∃ r ops', ops = .reduce r :: ops' ∧ A.todo c = .reduce r := by
  obtain ⟨hfollows, ts, hts, -⟩ := h
  unfold Lalr.todo
  cases hstack : c.stack with
  | nil =>
    rw [hstack] at hfollows
    cases hfollows
  | cons top below =>
    rw [hstack, List.map_cons] at hfollows
    dsimp only
    split
    case isTrue => exact .inl rfl
    case isFalse =>
      cases hfollows with
      | @shift _ t s _ ops' hfinal hstate hshift hrest =>
        rw [if_neg hfinal, if_neg (by simp [hstate])]
        cases hlook : c.lookahead with
        | none => exact .inr (.inl ⟨rfl, rfl, List.cons_ne_nil _ _⟩)
        | some t' =>
          rw [hlook] at hts
          obtain rfl : t' = t := (List.cons.inj hts).1
          refine .inr (.inr (.inl ⟨t', s, ops', rfl, ?_, rfl, hrest⟩))
          dsimp only
          rw [hshift]
      | @reduce _ r _ _ _ ops' hfinal hreduce hquiet =>
        rw [if_neg hfinal]
        split
        case isTrue => exact .inr (.inr (.inr ⟨r, ops', rfl, by rw [byDefault, hreduce]⟩))
        case isFalse hstate =>
          obtain ⟨t, ht, hnone⟩ := hquiet.resolve_left hstate
          cases hlook : c.lookahead with
          | none =>
            refine .inr (.inl ⟨rfl, rfl, ?_⟩)
            rw [tokens_reduce]
            exact List.ne_nil_of_mem (List.mem_of_mem_head? ht)
          | some t' =>
            rw [hlook, tokens_reduce] at hts
            rw [← hts] at ht
            obtain rfl := Option.some.inj ht
            refine .inr (.inr (.inr ⟨r, ops', rfl, ?_⟩))
            dsimp only
            rw [hnone]
            dsimp only
            rw [byDefault, hreduce]
      | @accept _ r _ hfinal hstate hreduce =>
        rw [if_neg hfinal, if_pos hstate, byDefault, hreduce]
        exact .inr (.inr (.inr ⟨r, [], rfl, rfl⟩))

theorem Plays.step (h : Plays A D c ops) (hstep : step A acts c = .run c') : ∃ ops', Plays A D c' ops' := by
  obtain ⟨ts, hts, hahead⟩ := h.supply
  cases step_run hstep with
  | @lex u env htodo hlex =>
    obtain htodo' | ⟨-, hlook, hne⟩ | ⟨_, _, _, -, htodo', -⟩ | ⟨_, _, -, htodo'⟩ := h.todo
    case inr.inl =>
      rw [hlook, Option.toList_none, List.nil_append] at hts
      subst hts
      cases htokens : tokens ops with
      | nil => exact (hne htokens).elim
      | cons t ts =>
        rw [htokens] at hahead
        obtain ⟨ts', hts', hahead'⟩ := D.lex _ _ _ _ _ hahead hlex
        exact ⟨ops, h.follows, ts', hts'.trans htokens.symm, hahead'⟩
    all_goals rw [htodo] at htodo'; cases htodo'
  | @shift s htodo =>
    obtain htodo' | ⟨htodo', -⟩ | ⟨t, s', ops', rfl, htodo', hlook, hrest⟩ | ⟨_, _, -, htodo'⟩ := h.todo
    case inr.inr.inl =>
      rw [htodo] at htodo'
      cases htodo'
      rw [hlook] at hts
      exact ⟨ops', hrest, ts, (List.cons.inj hts).2, hahead⟩
    all_goals rw [htodo] at htodo'; cases htodo'
  | @reduce r base rest v loc env htodo hdrop haction =>
    obtain htodo' | ⟨htodo', -⟩ | ⟨_, _, _, -, htodo', -⟩ | ⟨r', ops', rfl, htodo'⟩ := h.todo
    case inr.inr.inr =>
      rw [htodo] at htodo'
      cases htodo'
      obtain ⟨hahead', hgoes⟩ := D.reduce _ _ _ _ _ _ _ hahead haction
      refine ⟨ops', ?_, ts, hts, hahead'⟩
      have hfollows := h.follows
      generalize hstates : c.stack.map Frame.state = states at hfollows
      cases hfollows with
      | reduce _ _ _ hdrop' _ hrest =>
        rw [← hstates, ← List.map_drop, hdrop] at hdrop'
        obtain ⟨rfl, rfl⟩ := List.cons.inj hdrop'
        exact hrest
      | accept _ _ _ haccepts => exact (hgoes haccepts).elim
    all_goals rw [htodo] at htodo'; cases htodo'

theorem Plays.of_reaches (h : Plays A D c ops) (hreaches : Reaches A acts c c') : A.todo c' ≠ .syntaxError := by
  induction hreaches generalizing ops with
  | refl c =>
    intro htodo
    obtain htodo' | ⟨htodo', -⟩ | ⟨_, _, _, -, htodo', -⟩ | ⟨_, _, -, htodo'⟩ := h.todo
    all_goals rw [htodo] at htodo'; cases htodo'
  | step hstep _ ih =>
    obtain ⟨ops', hplays⟩ := h.step hstep
    exact ih hplays

/-! Which scripts the tables allow. -/

variable {number : N → Nat} {Fits : Nat → ParseTree N α → Nat → Prop}

/-- The state behind a symbol that has been read in a state. -/
def after (A : Lalr) (number : N → Nat) (s : Nat) : Symbol Nat N → Option Nat
  | .terminal t => A.shift s t
  | .nonterminal B => some (A.goto s (number B))

/-- The way of the stack over some trees that a token `u` follows. -/
inductive Walks (A : Lalr) (number : N → Nat) (Fits : Nat → ParseTree N α → Nat → Prop) (u : Nat) :
    List Nat → List (ParseTree N α) → List Nat → Prop
  | nil (ss : List Nat) : Walks A number Fits u ss [] ss
  | cons {s s' : Nat} {ss ss' : List Nat} {T : ParseTree N α} {Ts : List (ParseTree N α)}
      (hfits : Fits s T (ParseTree.next Ts u)) (hafter : A.after number s T.root = some s')
      (hrest : Walks A number Fits u (s' :: s :: ss) Ts ss') : Walks A number Fits u (s :: ss) (T :: Ts) ss'

theorem Walks.drop {u : Nat} {ss ss' : List Nat} {Ts : List (ParseTree N α)} (h : Walks A number Fits u ss Ts ss') :
    ss'.drop Ts.length = ss := by
  induction h with
  | nil => rfl
  | cons _ _ _ ih =>
    rw [List.length_cons, ← List.drop_drop, ih]
    rfl

theorem Walks.split {u : Nat} {ss ss' : List Nat} {Ts Ts' : List (ParseTree N α)}
    (h : Walks A number Fits u ss (Ts ++ Ts') ss') :
    ∃ ms, Walks A number Fits (ParseTree.next Ts' u) ss Ts ms ∧ Walks A number Fits u ms Ts' ss' := by
  induction Ts generalizing ss with
  | nil => exact ⟨ss, .nil ss, h⟩
  | cons T Ts ih =>
    rw [List.cons_append] at h
    cases h with
    | cons hfits hafter hrest =>
      rw [ParseTree.next_append] at hfits
      obtain ⟨ms, hwalks, hwalks'⟩ := ih hrest
      exact ⟨ms, .cons hfits hafter hwalks, hwalks'⟩

/-- A condition under which a tree can be read in a state in front of a token, since its parts can. -/
structure Guides (A : Lalr) (accepts : Nat → Prop) (number : N → Nat) (Fits : Nat → ParseTree N α → Nat → Prop) :
    Prop where
  shift : ∀ s t s', A.shift s t = some s' → s ≠ A.final ∧ A.consistent s = false
  node : ∀ s r B a children u, Fits s (.node r B a children) u → ∀ ss, ∃ p rest,
    Walks A number Fits u (s :: ss) children (p :: rest) ∧ p ≠ A.final ∧ A.reduce p = some r ∧
      (A.consistent p = true ∨ A.shift p u = none) ∧ A.length r = children.length ∧ A.lhs r = number B ∧ ¬ accepts r

theorem Walks.follows {u : Nat} {ss ss' : List Nat} {Ts : List (ParseTree N α)} (h : Walks A number Fits u ss Ts ss')
    (htrees : ∀ T ∈ Ts, ∀ s s' u ss ops, Fits s T u → A.after number s T.root = some s' → (tokens ops).head? = some u →
      Follows A accepts (s' :: s :: ss) ops → Follows A accepts (s :: ss) (T.script ++ ops))
    (hu : (tokens ops).head? = some u) (hops : Follows A accepts ss' ops) :
    Follows A accepts ss (Ts.flatMap ParseTree.script ++ ops) := by
  induction h with
  | nil => exact hops
  | @cons s s' ss ss' T Ts hfits hafter _ ih =>
    have hrest := ih (fun T hT => htrees T (List.mem_cons_of_mem _ hT)) hops
    rw [List.flatMap_cons, List.append_assoc]
    refine htrees T List.mem_cons_self s s' _ ss _ hfits hafter ?_ hrest
    rw [tokens_append, ParseTree.tokens_scripts fun T _ => T.tokens_script, ParseTree.next]
    cases hword : (Ts.flatMap ParseTree.word).map Prod.fst with
    | nil => exact hu
    | cons t ts => rfl

theorem Guides.follows (hguides : Guides A accepts number Fits) {T : ParseTree N α} {s s' u : Nat}
    (hfits : Fits s T u) (hafter : A.after number s T.root = some s') (hu : (tokens ops).head? = some u)
    (hops : Follows A accepts (s' :: s :: ss) ops) : Follows A accepts (s :: ss) (T.script ++ ops) := by
  induction T using ParseTree.induct generalizing s s' u ss ops with
  | token t a =>
    obtain ⟨hfinal, hstate⟩ := hguides.shift s t s' hafter
    rw [ParseTree.script_token]
    exact .shift hfinal hstate hafter hops
  | node r B a children ih =>
    obtain ⟨p, rest, hwalks, hfinal, hreduce, hquiet, hlen, hlhs, hgoes⟩ := hguides.node s r B a children u hfits ss
    have hdrop : (p :: rest).drop (A.length r) = s :: ss := by
      rw [hlen]
      exact hwalks.drop
    have hgoto : A.goto s (A.lhs r) = s' := by
      rw [hlhs]
      exact Option.some.inj hafter
    rw [ParseTree.script_node, List.append_assoc]
    refine hwalks.follows (fun T hT s s' u ss ops => ih T hT) hu (.reduce hfinal hreduce ?_ hdrop hgoes ?_)
    · exact hquiet.imp_right fun hnone => ⟨u, hu, hnone⟩
    · rw [hgoto]
      exact hops

end Lalr

end LevelPgServer
