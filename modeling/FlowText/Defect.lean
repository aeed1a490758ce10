/-!
# Broken shape rules

What can be wrong with the shape of an instruction, a condition or an operator, and how it is told.
-/

namespace FlowText

/-- A shape rule that is broken, with what the message about it needs. -/
inductive Defect where
  /-- an opcode tag without characters -/
  | emptyTag
  /-- an opcode tag that starts like a symbol and is none -/
  | unknownTag (tag : String)
  /-- no comparison has this symbol -/
  | unknownComparison (symbol : String)
  /-- no connective has this symbol or word -/
  | unknownConnective (word : String)
  /-- a condition was to be joined from an even number of items -/
  | evenItems (count : Nat)
  /-- a condition stands where a connective belongs, or the other way round -/
  | notAlternating (position : Nat)
  /-- verbatim text with a destination -/
  | literalDest
  /-- verbatim text with anything but one text argument -/
  | literalArgs (count : Nat)
  /-- an assignment without destination, or with anything but one argument -/
  | assignShape (count : Nat)
  /-- a binary operation without destination -/
  | binaryDest (symbol : String)
  /-- a binary operation with anything but two arguments -/
  | binaryArgs (symbol : String) (count : Nat)
  /-- a jump or call without any argument -/
  | noTarget (tag : String)
  deriving DecidableEq, Repr

/-- What is wrong, in words. -/
def Defect.message : Defect → String
  | emptyTag => "Empty opcode tag"
  | unknownTag tag => s!"Unknown opcode '{tag}'"
  | unknownComparison symbol => s!"Unknown comparison '{symbol}'"
  | unknownConnective word => s!"Unknown connective '{word}'"
  | evenItems count => s!"Compound condition needs an odd number of items, got {count}"
  | notAlternating position =>
    s!"Compound condition items do not alternate at position {position}"
  | literalDest => "LIT instruction must not have a destination"
  | literalArgs count =>
    s!"LIT instruction needs exactly one text argument, got {count} arguments"
  | assignShape count => s!"ASSIGN needs a destination and one argument, got {count} arguments"
  | binaryDest symbol => s!"Infix '{symbol}' needs a destination"
  | binaryArgs symbol count => s!"Infix '{symbol}' needs exactly two arguments, got {count}"
  | noTarget tag => s!"'{tag}' needs a target argument"

end FlowText
