import FlowText.Cond
import Mathlib

/-!
# Conditions as truth values

Once its operands stand for elements of a linear order, a condition is true or false (`Cond.holds`).
A chain is worked off strictly from left to right, as its sequence of items says
(`Chain.holds_eq_holdsRow`). The complement of a condition is true exactly where the condition is
false (`Cond.holds_negate`), and a comparison says the same of exchanged operands
(`Comparison.holds_swap`).
-/

namespace FlowText

universe u

variable {α : Type u} [LinearOrder α]

/-! ### Operators -/

/-- The comparison holds between two elements. -/
def Comparison.holds (x y : α) : Comparison → Bool
  | .eq => x = y
  | .ne => x ≠ y
  | .lt => x < y
  | .le => x ≤ y
  | .gt => x > y
  | .ge => x ≥ y

/-- What a connective makes of two truth values. -/
def Connective.join (a b : Bool) : Connective → Bool
  | .and => a && b
  | .or => a || b

/-- The order is linear, so of a comparison and its complement exactly one holds. -/
@[simp] theorem Comparison.holds_negate (op : Comparison) (x y : α) :
    op.negate.holds x y = !op.holds x y := by
  rw [Bool.eq_iff_iff]
  cases op <;> simp [holds, negate]

@[simp] theorem Comparison.holds_swap (op : Comparison) (x y : α) :
    op.swap.holds x y = op.holds y x := by
  cases op <;> simp [holds, swap, eq_comm]

/-- **De Morgan.** The other connective joins the opposites to the opposite. -/
@[simp] theorem Connective.join_negate (op : Connective) (a b : Bool) :
    op.negate.join (!a) (!b) = !op.join a b := by
  cases op <;> simp [join, negate]

/-! ### Truth -/

variable (value : Expr → α)

mutual

/-- **Truth** of a condition where the operands have given values. -/
def Cond.holds : Cond → Bool
  | .simple lhs op rhs => op.holds (value lhs) (value rhs)
  | .compound chain => chain.holds

/-- The truth of a chain, of which all but the last condition are joined first. -/
def Chain.holds : Chain → Bool
  | .single c => c.holds
  | .join chain op c => op.join chain.holds c.holds

end

/-- Works off the items behind a condition from left to right. -/
def Cond.holdsBehind (now : Bool) : List Cond.Item → Bool
  | .connective op :: .cond c :: items => holdsBehind (op.join now (c.holds value)) items
  | _ => now

/-- **From left to right.** The truth of a sequence that starts with a condition. -/
def Cond.holdsRow : List Cond.Item → Bool
  | .cond c :: items => holdsBehind value (c.holds value) items
  | _ => false

/-- The induction goes along the chain, so that what follows it is any sequence. -/
theorem Chain.holdsRow_items_append (chain : Chain) (items : List Cond.Item) :
    Cond.holdsRow value (chain.items ++ items) =
      Cond.holdsBehind value (chain.holds value) items := by
  match chain with
  | .single c => rw [Chain.items, List.singleton_append, Cond.holdsRow, Chain.holds]
  | .join chain op c =>
    rw [Chain.items, List.append_assoc, Chain.holdsRow_items_append chain, Chain.holds]
    rfl

/-- A chain says what its items say from left to right. -/
theorem Chain.holds_eq_holdsRow (chain : Chain) :
    chain.holds value = Cond.holdsRow value chain.items := by
  have h := chain.holdsRow_items_append value []
  rw [List.append_nil] at h
  exact h.symm

/-! ### The complement -/

mutual

theorem Cond.holds_negate (c : Cond) : c.negate.holds value = !c.holds value := by
  match c with
  | .simple lhs op rhs => simp [Cond.negate, Cond.holds]
  | .compound chain =>
    rw [Cond.negate, Cond.holds, Cond.holds]
    exact chain.holds_negate

theorem Chain.holds_negate (chain : Chain) : chain.negate.holds value = !chain.holds value := by
  match chain with
  | .single c =>
    rw [Chain.negate, Chain.holds, Chain.holds]
    exact c.holds_negate
  | .join chain op c =>
    rw [Chain.negate, Chain.holds, Chain.holds, chain.holds_negate, c.holds_negate]
    exact op.join_negate _ _

end

mutual

@[simp] theorem Cond.negate_negate (c : Cond) : c.negate.negate = c := by
  match c with
  | .simple lhs op rhs => simp [Cond.negate]
  | .compound chain => rw [Cond.negate, Cond.negate, chain.negate_negate]

@[simp] theorem Chain.negate_negate (chain : Chain) : chain.negate.negate = chain := by
  match chain with
  | .single c => rw [Chain.negate, Chain.negate, c.negate_negate]
  | .join chain op c =>
    rw [Chain.negate, Chain.negate, chain.negate_negate, op.negate_negate, c.negate_negate]

end

mutual

@[simp] theorem Cond.exprs_negate (c : Cond) : c.negate.exprs = c.exprs := by
  match c with
  | .simple lhs op rhs => rw [Cond.negate, Cond.exprs, Cond.exprs]
  | .compound chain => rw [Cond.negate, Cond.exprs, Cond.exprs, chain.exprs_negate]

@[simp] theorem Chain.exprs_negate (chain : Chain) : chain.negate.exprs = chain.exprs := by
  match chain with
  | .single c => rw [Chain.negate, Chain.exprs, Chain.exprs, c.exprs_negate]
  | .join chain op c =>
    rw [Chain.negate, Chain.exprs, Chain.exprs, chain.exprs_negate, c.exprs_negate]

end

/-- **Complement.** Whatever its operands stand for, the complement of a condition is true exactly
where the condition is false, has the same operands in the same order, and has the condition as its
complement. A compound condition is understood from left to right. Exchanging the operands of a
comparison keeps its truth, is undone by a second exchange, and may be done before or after taking
the complement. -/
theorem negate_complements (c : Cond) :
    c.negate.holds value = !c.holds value ∧
    c.negate.negate = c ∧
    c.negate.exprs = c.exprs ∧
    (∀ chain : Chain, (Cond.compound chain).holds value = Cond.holdsRow value chain.items) ∧
    ∀ lhs op rhs, ∃ d, (Cond.simple lhs op rhs).swapped? = some d ∧
      d.holds value = (Cond.simple lhs op rhs).holds value ∧
      d.swapped? = some (.simple lhs op rhs) ∧
      (Cond.simple lhs op rhs).negate.swapped? = some d.negate := by
  refine ⟨c.holds_negate value, c.negate_negate, c.exprs_negate,
    fun chain => ?_, fun lhs op rhs => ?_⟩
  · rw [Cond.holds]
    exact chain.holds_eq_holdsRow value
  · refine ⟨.simple rhs op.swap lhs, rfl, ?_, ?_, ?_⟩
    · rw [Cond.holds, Cond.holds, Comparison.holds_swap]
    · rw [Cond.swapped?, Comparison.swap_swap]
    · rw [Cond.negate, Cond.swapped?, Cond.negate, Comparison.swap_negate]

end FlowText
