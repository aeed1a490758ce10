import FlowText.Cfg
import FlowText.Log
import FlowText.Script

/-!
# Passes

* `Edit` — work on a subject that may fail. It may log, and it may remember something from one call
  to the next. What was done before a failure stays done.
* `Edit.eachBlock` — lifts work on a block to work on all blocks of a graph.
* `Pass` — named work on a graph or on each block, which tells whether it changed anything.
-/

namespace FlowText

/-- What an edit has at hand. -/
structure Bench (σ α : Type) where
  /-- what is worked on -/
  subject : α
  /-- what the passes remember -/
  memory : σ
  log : Log := #[]

/-- **Edit.** Work on a subject of type `α` that gives a result or fails. -/
abbrev Edit (σ α β : Type) := ExceptT Error (StateM (Bench σ α)) β

namespace Edit

variable {σ α β : Type}

/-- Does the work: how it ended, and what is at hand afterwards. -/
def on (e : Edit σ α β) (b : Bench σ α) : Except Error β × Bench σ α := (ExceptT.run e).run b

/-- The subject as it is now. -/
def subject : Edit σ α α := return (← get).subject

/-- Puts another subject in its place. -/
def replace (a : α) : Edit σ α Unit := modify fun b => { b with subject := a }

/-- Adds a log line. -/
def log (line : LogLine) : Edit σ α Unit := modify fun b => { b with log := b.log.push line }

/-- Does work that tells whether it changed anything for each item of a list, in order. Any change
counts. -/
def anyChange {ι : Type} (items : List ι) (work : ι → Edit σ α Bool) : Edit σ α Bool :=
  items.foldlM (fun changed i => return (← work i) || changed) false

/-- Works on the block of a node. Without a block there is nothing to do. -/
def atNode (work : Edit σ Block Bool) (v : NodeId) : Edit σ Cfg Bool := fun b =>
  match (b.subject.nodeAt? v).bind Node.block with
  | none => (.ok false, b)
  | some block =>
    let (result, after) := work.on { b with subject := block }
    (result, { after with
      subject := b.subject.modifyNode v fun n => { n with block := some after.subject } })

/-- **Each block.** Works on every block, in the natural order that the addresses have before. -/
def eachBlock (work : Edit σ Block Bool) : Edit σ Cfg Bool := do
  anyChange (← subject).sortedIds (atNode work)

end Edit

/-- What a pass does. It tells whether it changed anything. -/
inductive Work (σ : Type) where
  | graph (edit : Edit σ Cfg Bool)
  | block (edit : Edit σ Block Bool)

/-- A pass. -/
structure Pass (σ : Type) where
  /-- the name, which no other pass of this kind has -/
  name : String
  description : String := "No description available"
  work : Work σ

namespace Pass

variable {σ : Type}

/-- What the pass works on. -/
def kind (p : Pass σ) : PassKind :=
  match p.work with
  | .graph _ => .graph
  | .block _ => .block

/-- The keyword and the name, as a script asks for the pass. -/
def title (p : Pass σ) : String := p.kind.keyword ++ ": " ++ p.name

/-- **Run.** Runs the pass once on a graph, or once on each of its blocks. -/
def run (p : Pass σ) : Edit σ Cfg Bool :=
  match p.work with
  | .graph edit => edit
  | .block edit => edit.eachBlock

end Pass

end FlowText
