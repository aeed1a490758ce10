/-!
# Identifiers of nodes and edges

Nodes and edges are numbered in the order in which they were added, from zero. They are never taken
away, so an identifier keeps its meaning.
-/

namespace FlowText

/-- The position of a node in the order of addition. -/
structure NodeId where
  index : Nat
  deriving DecidableEq, Repr

/-- The position of an edge in the order of addition. -/
structure EdgeId where
  index : Nat
  deriving DecidableEq, Repr

namespace NodeId

/-- The short name of a node. -/
def text (v : NodeId) : String := s!"n{v.index}"

/-- The form in which diagnostics show the identifier of a node. -/
def inspect (v : NodeId) : String := s!"NodeId({v.index})"

end NodeId

namespace EdgeId

/-- The short name of an edge. -/
def text (e : EdgeId) : String := s!"e{e.index}"

/-- The form in which diagnostics show the identifier of an edge. -/
def inspect (e : EdgeId) : String := s!"EdgeId({e.index})"

end EdgeId

end FlowText
