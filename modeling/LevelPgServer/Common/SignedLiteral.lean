import LevelPgServer.Common.NumberLiteral
import LevelPgServer.Common.ParseNode

/-! Numbers under signs and parentheses. -/

namespace LevelPgServer.SqlParser

open ParseNode

structure Blanks where
  text : Bytes
  isBlank : ∀ c ∈ text, c ∈ [32, 9, 13, 10]

/-- A number under signs and parentheses, as the SQL text has it. -/
inductive Signed
  | number (l : Literal)
  | minus (w : Blanks) (e : Signed)
  | plus (w : Blanks) (e : Signed)
  | paren (w : Blanks) (e : Signed) (w' : Blanks)

namespace Signed

def text : Signed → Bytes
  | number l => l.text
  | minus w e => 45 :: (w.text ++ e.text)
  | plus w e => 43 :: (w.text ++ e.text)
  | paren w e w' => 40 :: (w.text ++ e.text ++ w'.text ++ [41])

def value : Signed → ℚ
  | number l => l.value
  | minus _ e => - e.value
  | plus _ e => e.value
  | paren _ e _ => e.value

def literal : Signed → Literal
  | number l => l
  | minus _ e => e.literal
  | plus _ e => e.literal
  | paren _ e _ => e.literal

def negative : Signed → Bool
  | number _ => false
  | minus _ e => !e.negative
  | plus _ e => e.negative
  | paren _ e _ => e.negative

def kind (e : Signed) : NodeType := if e.literal.isInt then .int else .float

def literalNode (e : Signed) : ParseNode :=
  let sValue := if e.negative then 45 :: e.literal.text else e.literal.text
  node e.kind .none sValue sValue []

def constant : Signed → Bytes
  | number l => l.text
  | minus w e => (minus w e).text
  | plus _ e => e.constant
  | paren _ e _ => e.constant

/-- There is no minus sign, or a single one, directly in front of the number. -/
def Plain : Signed → Prop
  | number _ => True
  | minus w (number _) => w.text = []
  | minus _ _ => False
  | plus _ e => e.Plain
  | paren _ e _ => e.Plain

/-- What follows the text does not go on with the number that it ends with. -/
def EndsBefore : Signed → Bytes → Prop
  | number _, rest => Literal.Apart rest
  | minus _ e, rest => e.EndsBefore rest
  | plus _ e, rest => e.EndsBefore rest
  | paren _ _ _, _ => True

def depth : Signed → Nat
  | number _ => 1
  | minus _ e => e.depth + 1
  | plus _ e => e.depth + 1
  | paren _ e _ => max (e.depth + 1) 3

def nodes : Signed → Nat
  | number _ => 1
  | minus _ e => e.nodes + 1
  | plus _ e => e.nodes
  | paren _ e _ => e.nodes

theorem depth_pos (e : Signed) : 0 < e.depth := by
  cases e with
  | number => exact Nat.one_pos
  | minus | plus => exact Nat.succ_pos _
  | paren => exact lt_max_of_lt_right (by decide)

theorem semicolon_not_mem (e : Signed) : 59 ∉ e.text := by
  have hblank : ∀ w : Blanks, 59 ∉ w.text := fun w h => absurd (w.isBlank 59 h) (by decide)
  induction e with
  | number l =>
    intro h
    exact absurd (l.mem_text h) (by decide)
  | minus w e ih => simp [text, hblank w, ih]
  | plus w e ih => simp [text, hblank w, ih]
  | paren w e w' ih => simp [text, hblank w, hblank w', ih]

theorem endsBefore_of_apart {rest : Bytes} (h : Literal.Apart rest) : ∀ e : Signed, e.EndsBefore rest
  | number _ => h
  | minus _ e => endsBefore_of_apart h e
  | plus _ e => endsBefore_of_apart h e
  | paren _ _ _ => trivial

/-- The text begins with a digit or a point only where it is a number. -/
theorem head_text (e : Signed) : (∃ l, e = number l) ∨ ∃ c t, e.text = c :: t ∧ c ∈ [45, 43, 40] := by
  cases e with
  | number l => exact .inl ⟨l, rfl⟩
  | minus w e => exact .inr ⟨45, _, rfl, by decide⟩
  | plus w e => exact .inr ⟨43, _, rfl, by decide⟩
  | paren w e w' => exact .inr ⟨40, _, rfl, by decide⟩

end Signed

def Numeral (x : Bytes) (v : ℚ) : Prop :=
  ∃ l : Literal, (x = l.text ∨ x = 43 :: l.text) ∧ v = l.value ∨ x = 45 :: l.text ∧ v = -l.value

theorem numeral_minus {x : Bytes} {v : ℚ} (h : Numeral (45 :: x) v) : ∃ l : Literal, x = l.text := by
  obtain ⟨l, ⟨hx | hx, -⟩ | ⟨hx, -⟩⟩ := h
  · obtain ⟨c, t, ht, hc⟩ := l.head_text
    rw [ht, List.cons.injEq] at hx
    rw [← hx.1] at hc
    exact absurd hc (by decide)
  · exact absurd (List.cons.inj hx).1 (by decide)
  · exact ⟨l, (List.cons.inj hx).2⟩

namespace Signed

theorem plain_minus {w : Blanks} {e : Signed} : (minus w e).Plain ↔ w.text = [] ∧ ∃ l, e = number l := by
  cases e with
  | number l => exact ⟨fun h => ⟨h, l, rfl⟩, fun h => h.1⟩
  | minus | plus | paren => exact ⟨fun h => h.elim, by rintro ⟨-, l, hl⟩; cases hl⟩

theorem numeral_of_plain {e : Signed} (h : e.Plain) : Numeral e.constant e.value := by
  induction e with
  | number l => exact ⟨l, .inl ⟨.inl rfl, rfl⟩⟩
  | minus w e =>
    obtain ⟨hw, l, rfl⟩ := plain_minus.mp h
    exact ⟨l, .inr ⟨by simp [constant, text, hw], rfl⟩⟩
  | plus w e ih => exact ih h
  | paren w e w' ih => exact ih h

theorem plain_of_numeral {e : Signed} {v : ℚ} (h : Numeral e.constant v) : e.Plain := by
  induction e with
  | number l => trivial
  | minus w e =>
    obtain ⟨l, hl⟩ := numeral_minus h
    obtain ⟨c, t, ht, hc⟩ := l.head_text
    rw [ht] at hl
    refine plain_minus.mpr ?_
    cases hw : w.text with
    | nil =>
      rw [hw, List.nil_append] at hl
      obtain hnumber | ⟨d, u, hu, hd⟩ := e.head_text
      · exact ⟨rfl, hnumber⟩
      · rw [hu, List.cons.injEq] at hl
        rw [hl.1] at hd
        obtain hc | rfl := hc
        · simp only [List.mem_cons, List.not_mem_nil, or_false] at hd
          obtain rfl | rfl | rfl := hd <;> exact absurd hc (by decide)
        · exact absurd hd (by decide)
    | cons d u =>
      have hd := w.isBlank d (by rw [hw]; exact List.mem_cons_self)
      rw [hw, List.cons_append, List.cons.injEq] at hl
      rw [hl.1] at hd
      obtain hc | rfl := hc
      · simp only [List.mem_cons, List.not_mem_nil, or_false] at hd
        obtain rfl | rfl | rfl | rfl := hd <;> exact absurd hc (by decide)
      · exact absurd hd (by decide)
  | plus w e ih => exact ih h
  | paren w e w' ih => exact ih h

/-- A plain constant is written like a literal of its value. -/
theorem constant_of_plain {e : Signed} (h : e.Plain) :
    e.constant = if e.negative then 45 :: e.literal.text else e.literal.text := by
  induction e with
  | number l => rfl
  | minus w e =>
    obtain ⟨hw, l, rfl⟩ := plain_minus.mp h
    simp [constant, text, hw, negative, literal]
  | plus w e ih => exact ih h
  | paren w e w' ih => exact ih h

end Signed

end LevelPgServer.SqlParser
