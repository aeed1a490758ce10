import FlowText.Expr
import FlowText.Op

/-!
# Branch conditions

* `Cond`, `Chain` — a comparison, or conditions joined by connectives. Conditions and connectives
  alternate by construction.
* `Cond.negate` — the complement by De Morgan's laws.
* `Cond.Item` — the alternating sequence as a list; `Chain.ofItems` reads one, `Chain.items` gives
  it back.
-/

namespace FlowText

mutual

/-- A branch condition. -/
inductive Cond where
  /-- one comparison -/
  | simple (lhs : Expr) (op : Comparison) (rhs : Expr)
  /-- conditions joined by connectives, in parentheses -/
  | compound (chain : Chain)
  deriving DecidableEq, Repr

/-- Conditions joined by connectives. They group to the left, and one condition alone is a chain,
too. -/
inductive Chain where
  /-- one condition alone -/
  | single (c : Cond)
  /-- a chain and one more condition -/
  | join (chain : Chain) (op : Connective) (c : Cond)
  deriving DecidableEq, Repr

end

namespace Cond

/-- An item of the alternating sequence of conditions and connectives. -/
inductive Item where
  | cond (c : Cond)
  | connective (l : Connective)
  deriving DecidableEq, Repr

end Cond

mutual

/-- **Canonical form.** Every condition stands in parentheses of its own. -/
def Cond.text : Cond → String
  | .simple lhs op rhs => "(" ++ lhs.text ++ " " ++ op.symbol ++ " " ++ rhs.text ++ ")"
  | .compound chain => "(" ++ chain.text ++ ")"

/-- The canonical form of a chain, without parentheses around it. -/
def Chain.text : Chain → String
  | .single c => c.text
  | .join chain op c => chain.text ++ " " ++ op.symbol ++ " " ++ c.text

end

mutual

/-- **Complement.** Every comparison and every connective is negated. -/
def Cond.negate : Cond → Cond
  | .simple lhs op rhs => .simple lhs op.negate rhs
  | .compound chain => .compound chain.negate

/-- The complement of a chain. -/
def Chain.negate : Chain → Chain
  | .single c => .single c.negate
  | .join chain op c => .join chain.negate op.negate c.negate

end

mutual

/-- The operands, left to right. -/
def Cond.exprs : Cond → List Expr
  | .simple lhs _ rhs => [lhs, rhs]
  | .compound chain => chain.exprs

/-- The operands of a chain, left to right. -/
def Chain.exprs : Chain → List Expr
  | .single c => c.exprs
  | .join chain _ c => chain.exprs ++ c.exprs

end

mutual

/-- **Same condition.** Operands count up to comments and radices. -/
def Cond.same : Cond → Cond → Bool
  | .simple a op b, .simple c oq d => a.same c && op == oq && b.same d
  | .compound x, .compound y => x.same y
  | _, _ => false

/-- Two chains that are the same, link by link. -/
def Chain.same : Chain → Chain → Bool
  | .single c, .single d => c.same d
  | .join x l c, .join y m d => x.same y && l == m && c.same d
  | _, _ => false

end

namespace Chain

/-- The alternating sequence. -/
def items : Chain → List Cond.Item
  | single c => [.cond c]
  | join chain op c => chain.items ++ [.connective op, .cond c]

/-- Two conditions joined by a connective. -/
def pair (lhs : Cond) (op : Connective) (rhs : Cond) : Chain := join (single lhs) op rhs

/-- Adds the items of a sequence that is known to start behind the chain, at `position`, and
to be of even length. -/
def extend (chain : Chain) (position : Nat) : List Cond.Item → Except Defect Chain
  | [] => .ok chain
  | .cond _ :: _ => .error (.notAlternating position)
  | [.connective _] => .error (.evenItems (position + 1))
  | .connective _ :: .connective _ :: _ => .error (.notAlternating (position + 1))
  | .connective op :: .cond c :: rest => extend (join chain op c) (position + 2) rest

/-- **Chain of items.** A sequence of even length is refused before one that does not alternate. -/
def ofItems (items : List Cond.Item) : Except Defect Chain :=
  if items.length % 2 = 0 then .error (.evenItems items.length)
  else match items with
    | .cond c :: rest => extend (single c) 1 rest
    | _ => .error (.notAlternating 0)

end Chain

namespace Cond

/-- **Diagnostic form.** It tells whether the condition is one comparison. -/
def inspect : Cond → String
  | c@(simple ..) => "SCond" ++ c.text
  | c@(compound _) => "CCond" ++ c.text

/-- The condition as an alternating sequence. One comparison is a sequence of one item. -/
def flatten : Cond → List Item
  | c@(simple ..) => [.cond c]
  | compound chain => chain.items

/-- The comparison of the exchanged operands that says the same. -/
def swapped? : Cond → Option Cond
  | simple lhs op rhs => some (simple rhs op.swap lhs)
  | compound _ => none

/-- Adds one more condition at the end. One comparison becomes a pair. -/
def append : Cond → Connective → Cond → Cond
  | c@(simple ..), op, d => compound (.pair c op d)
  | compound chain, op, d => compound (.join chain op d)

end Cond

/-- The canonical form of an item. -/
def Cond.Item.text : Cond.Item → String
  | cond c => c.text
  | connective l => l.symbol

end FlowText
