import FlowText.Error
import FlowText.Expr
import FlowText.Text.Natural

/-!
# Order of expressions

Only registers and memory references are ordered: registers by the natural order of their names,
memory references by base, offset and type, and the two kinds by the word for the kind.

* `Expr.order` — the order of two expressions, or the two that have none.
* `Expr.sortInPlace`, `Expr.sort` — a stable sort, or the first two expressions found to have no
  order.
-/

namespace FlowText.Expr

/-- **Order.** Memory references with the same base need no order of the bases. -/
def order : Expr → Expr → Except Error Ordering
  | reg n _, reg m _ => .ok (natural n m)
  | mem ty a o _, mem tz b p _ => do
    let bases ← if a.same b then pure .eq else order a b
    return bases.then ((compare o.toInt p.toInt).then (compare ty tz))
  | e@(reg ..), f@(mem ..) | e@(mem ..), f@(reg ..) => .ok (compare e.kindName f.kindName)
  | e, f => .error (.unordered e.inspect f.inspect)

/-- The order, or none. -/
def order? (e f : Expr) : Option Ordering := (order e f).toOption

/-- Expressions of this kind are ordered among themselves. -/
def isOrdered : Expr → Bool
  | reg .. | mem .. => true
  | _ => false

/-- The bases of the memory references in a list, each once, in order. -/
def bases (es : List Expr) : List Expr :=
  es.foldl addBase []
where
  /-- adds the base of an expression to those found before -/
  addBase (found : List Expr) : Expr → List Expr
    | mem _ b _ _ => if found.any (·.same b) then found else found ++ [b]
    | _ => found

/-- Compares each expression of a list with all behind it. -/
def orderPairs : List Expr → Except Error Unit
  | [] => .ok ()
  | e :: es => do
    es.forM fun f => discard (order e f)
    orderPairs es

/-- **Sortable.** Whether every two expressions of a list have an order. One that is not ordered
has none with the first of the list; registers always have one, so that only the different bases of
memory references are left to compare. -/
def checkSortable : List Expr → Except Error Unit
  | [] => .ok ()
  | first :: es =>
    match (first :: es).find? (!·.isOrdered) with
    | some e => discard (order first e)
    | none => orderPairs (bases (first :: es))

/-- **Sort in place.** How it ended, and the list afterwards. The list is sorted by the order, and
expressions of one place keep theirs. If some two have no order, nothing is moved. -/
def sortInPlace (es : List Expr) : Except Error Unit × List Expr :=
  match checkSortable es with
  | .ok () => (.ok (), es.mergeSort fun e f => (order? e f).getD .eq != .gt)
  | .error e => (.error e, es)

/-- **Sort.** The list in order, if every two expressions have one. -/
def sort (es : List Expr) : Except Error (List Expr) :=
  let (result, after) := sortInPlace es
  result.map fun () => after

end FlowText.Expr
