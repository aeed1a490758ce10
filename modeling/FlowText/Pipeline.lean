import FlowText.Catalog

/-!
# Pipelines

A pipeline runs the passes of a script in rounds, and stops after the first round in which nothing
changed.

* `Pipeline.ofScript` — looks up every step of a script before anything runs.
* `Pipeline.run` — runs the rounds and tells whether anything changed. The first failure ends the
  run.
-/

namespace FlowText

/-- How a pipeline runs. -/
structure Config where
  /-- how many rounds may be run -/
  maxRounds : Nat := 1
  /-- changes are logged as more important than what else happens -/
  logChanges : Bool := true
  deriving DecidableEq, Repr

/-- Passes to run in rounds. -/
structure Pipeline (σ : Type) where
  /-- the passes of a round, in order -/
  passes : List (Pass σ)
  config : Config := {}

namespace Pipeline

variable {σ : Type}

/-- **Resolve.** The passes that a script asks for. The first step whose pass is not in the catalog
is an error. -/
def ofScript (script : Script) (catalog : Catalog σ) (config : Config) :
    Except Error (Pipeline σ) := do
  let passes ← script.mapM fun s => catalog.require s.kind s.name (some s.line)
  return { passes, config }

/-- What is logged when a script was resolved. -/
def resolved (p : Pipeline σ) : LogLine := debug s!"Resolved {p.passes.length} pipeline steps"

/-- Runs one pass and logs it. -/
def call (config : Config) (pass : Pass σ) : Edit σ Cfg Bool := do
  Edit.log (debug s!"Running {pass.title}")
  let changed ← pass.run
  Edit.log <|
    if changed && config.logChanges then info s!"{pass.title} changed the graph"
    else debug s!"{pass.title} changed={changed}"
  return changed

/-- Runs each pass once. -/
def round (p : Pipeline σ) : Edit σ Cfg Bool := Edit.anyChange p.passes (call p.config)

/-- Runs up to `more` further rounds after the first `done` ones. -/
def rounds (p : Pipeline σ) (done : Nat) : (more : Nat) → Edit σ Cfg Bool
  | 0 => return false
  | more + 1 => do
    if ← p.round then
      let _ ← p.rounds (done + 1) more
      return true
    else
      Edit.log (debug s!"Pipeline stable after {done + 1} rounds")
      return false

/-- **Run.** Runs rounds until nothing changes, or until there are no rounds left. -/
def run (p : Pipeline σ) : Edit σ Cfg Bool := p.rounds 0 p.config.maxRounds

/-- **Diagnostic form.** -/
def inspect (p : Pipeline σ) : String :=
  "Pipeline \x7b steps: " ++ Catalog.literals (p.passes.map Pass.title) ++
    s!", config: PipelineConfig \x7b max_iterations: {p.config.maxRounds}, " ++
    s!"log_changes: {p.config.logChanges} \x7d \x7d"

end Pipeline

end FlowText
