import FlowText.Keyed
import FlowText.Pass.Stock
import FlowText.Text.Literal

/-!
# Catalogs of passes

A catalog holds at most one pass of each kind and name. Passes of different kinds may share a name.

* `Catalog.register` — adds a pass, instead of one of the same kind and name.
* `Catalog.find?`, `Catalog.require` — a pass by its kind and name.
* `Catalog.passes` — all passes: those on graphs first, those of one kind in the order of names.
-/

namespace FlowText

/-- The passes that a script may ask for. -/
structure Catalog (σ : Type) where
  /-- the passes of each kind -/
  shelf : PassKind → Keyed (Pass.name (σ := σ)) := fun _ => {}
  /-- each pass is on the shelf for its kind -/
  kind_eq : ∀ kind, ∀ p ∈ (shelf kind).toList, p.kind = kind := by simp

namespace Catalog

variable {σ : Type}

/-- **Register.** Adds a pass, instead of one of the same kind and name. -/
def register (p : Pass σ) (c : Catalog σ) : Catalog σ where
  shelf kind := if kind = p.kind then (c.shelf kind).insert p else c.shelf kind
  kind_eq kind q hq := by
    split at hq
    · next h =>
      rcases Keyed.mem_of_mem_place hq with rfl | hq
      · exact h.symm
      · exact c.kind_eq kind q hq
    · exact c.kind_eq kind q hq

/-- The catalog of the stock passes. -/
def stock : Catalog σ :=
  ({} : Catalog σ) |>.register .numberPostorder |>.register .removeTrailingJumps
    |>.register .removeDead

/-- The pass of a given kind and name. -/
def find? (kind : PassKind) (name : String) (c : Catalog σ) : Option (Pass σ) :=
  (c.shelf kind).find? name

/-- The catalog has a pass of a given kind and name. -/
def contains (kind : PassKind) (name : String) (c : Catalog σ) : Bool := (c.find? kind name).isSome

/-- The pass of a given kind and name, which has to be there. -/
def require (kind : PassKind) (name : String) (line : Option Nat) (c : Catalog σ) :
    Except Error (Pass σ) :=
  match c.find? kind name with
  | some p => .ok p
  | none => .error (.unknownPass kind.keyword name line)

/-- All passes. -/
def passes (c : Catalog σ) : List (Pass σ) := (c.shelf .graph).toList ++ (c.shelf .block).toList

/-- The number of passes. -/
def size (c : Catalog σ) : Nat := (c.shelf .graph).size + (c.shelf .block).size

/-- Literals between brackets. -/
def literals (texts : List String) : String :=
  "[" ++ ", ".intercalate (texts.map Literal.encode) ++ "]"

/-- **Diagnostic form.** The names of the passes of each kind. -/
def inspect (c : Catalog σ) : String :=
  let names kind := literals ((c.shelf kind).toList.map Pass.name)
  "PassRegistry \x7b graph: " ++ names .graph ++ ", block: " ++ names .block ++ " \x7d"

end Catalog

end FlowText
