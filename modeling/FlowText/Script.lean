import FlowText.Error
import FlowText.Text.Blank
import FlowText.Text.Lines

/-!
# Scripts

A script lists the passes to run, one on each line:

    # tidy up before numbering
    xform_bblock: remove_trailing_jumps
    xform: number_postorder

Blank lines and lines that start with a number sign say nothing. The blanks at both ends of a line,
and those around the first colon, do not count.

* `PassKind` — what a pass works on, with its keyword.
* `Step.ofLine?` — the step that a line asks for, if it asks for any.
* `Script.read` — all steps of a script, or the first line that does not fit.
-/

namespace FlowText

/-- What a pass works on. -/
inductive PassKind where
  /-- the whole graph at once -/
  | graph
  /-- one block after the other -/
  | block
  deriving DecidableEq, Repr

namespace PassKind

/-- The word for the kind. -/
def keyword : PassKind → String
  | graph => "xform"
  | block => "xform_bblock"

/-- The kind of a given keyword. -/
def ofKeyword? (word : String) : Option PassKind :=
  match word with
  | "xform" => some graph
  | "xform_bblock" => some block
  | _ => none

theorem ofKeyword?_keyword (k : PassKind) : ofKeyword? k.keyword = some k := by cases k <;> rfl

end PassKind

/-- A pass that a script asks for. -/
structure Step where
  kind : PassKind
  /-- the name of the pass -/
  name : String
  /-- the line of the script, counted from one -/
  line : Nat
  deriving DecidableEq, Repr

namespace Step

/-- The line says nothing. -/
def isRemark (line : List Char) : Bool :=
  match trim line with
  | [] => true
  | c :: _ => c == '#'

/-- The name may stand for a pass: it is not empty and holds no blank. -/
def isName (cs : List Char) : Bool := !cs.isEmpty && !cs.any isBlank

/-- The step on a line that says something. -/
def ofLine (n : Nat) (line : List Char) : Except ScriptError Step :=
  let text := trim line
  match text.dropWhile (· ≠ ':') with
  | [] => .error (.noColon (String.ofList text))
  | _ :: behind =>
    let word := String.ofList (trim (text.takeWhile (· ≠ ':')))
    let name := trim behind
    match PassKind.ofKeyword? word with
    | none => .error (.unknownKeyword word)
    | some kind =>
      if isName name then .ok { kind, name := String.ofList name, line := n }
      else .error (.badName (String.ofList name))

/-- **Line.** The step on a line, if the line says anything. -/
def ofLine? (n : Nat) (line : List Char) : Except ScriptError (Option Step) :=
  if isRemark line then .ok none else (ofLine n line).map some

end Step

/-- The passes to run, in order. -/
abbrev Script := List Step

/-- **Read.** The steps of a script. -/
def Script.read (text : String) : Except Error Script := do
  let steps ← (lines text.toList).zipIdx.mapM fun (line, i) =>
    (Step.ofLine? (i + 1) line).mapError fun e => Error.parse (i + 1) (.script e)
  return steps.filterMap id

end FlowText
