import FlowText.Inst.Form

/-!
# Renderers

* `Renderer` — decides the text of each instruction, or leaves the instruction out.
* `Style`, `Layout` — the stock renderers: either form of the text, with or without dead
  instructions.
-/

namespace FlowText

/-- Gives the text of an instruction, or nothing to leave it out. It may refuse an instruction. -/
abbrev Renderer := Inst → Except Error (Option String)

/-- Which form of an instruction is shown. -/
inductive Style where
  | canonical
  | diagnostic
  deriving DecidableEq, Repr, Inhabited

namespace Style

/-- The style's name. -/
def name : Style → String
  | canonical => "canonical"
  | diagnostic => "diagnostic"

/-- The style of a given name. -/
def ofName? (text : String) : Option Style :=
  match text with
  | "canonical" => some canonical
  | "diagnostic" => some diagnostic
  | _ => none

end Style

/-- How instructions are shown. -/
structure Layout where
  style : Style := .canonical
  /-- leave out what is marked as dead -/
  omitDead : Bool := false
  deriving DecidableEq, Repr

/-- The renderer for a layout. -/
def Layout.render (l : Layout) : Renderer := fun i =>
  if l.omitDead && i.isDead then .ok none
  else match l.style with
    | .canonical => i.canonical.map some
    | .diagnostic => .ok (some i.inspect)

end FlowText
