import FlowText.Proofs.Courses
import FlowText.Proofs.Results

/-!
# Scripts that are run

A script is resolved step by step, each in the catalog under its own kind
(`Pipeline.ofScript_eq_ok_iff`), and the first step whose pass is not there is the error
(`Pipeline.ofScript_eq_error_iff`). A pipeline that a script was resolved to makes the calls that
are prescribed and no others (`pipeline_makes_prescribed_calls`).
-/

namespace FlowText

variable {σ : Type}

/-! ### Resolving -/

namespace Catalog

variable {c : Catalog σ} {kind : PassKind} {name : String}

/-- What is found has the kind and the name that were asked for. -/
theorem kind_name_of_find? {p : Pass σ} (h : c.find? kind name = some p) :
    p.kind = kind ∧ p.name = name :=
  ⟨c.kind_eq kind p (List.mem_of_find?_eq_some h), by simpa using List.find?_some h⟩

theorem require_eq_ok_iff {line : Option Nat} {p : Pass σ} :
    c.require kind name line = .ok p ↔ c.find? kind name = some p := by
  rw [require]
  cases c.find? kind name <;> simp

theorem require_eq_error_iff {line : Option Nat} {e : Error} :
    c.require kind name line = .error e ↔
      c.contains kind name = false ∧ e = .unknownPass kind.keyword name line := by
  rw [require, contains]
  cases c.find? kind name <;> simp [eq_comm]

end Catalog

namespace Pipeline

variable {script : Script} {catalog : Catalog σ} {config : Config}

theorem ofScript_eq_ok_iff {p : Pipeline σ} :
    ofScript script catalog config = .ok p ↔ p.config = config ∧
      List.Forall₂ (fun s q => catalog.find? s.kind s.name = some q) script p.passes := by
  have hfound : List.Forall₂ (fun s q => catalog.find? s.kind s.name = some q) script p.passes ↔
      script.mapM (fun s => catalog.require s.kind s.name (some s.line)) = .ok p.passes := by
    rw [mapM_eq_ok_iff]
    simp only [Catalog.require_eq_ok_iff]
  rw [hfound, ofScript]
  constructor
  · intro h
    obtain ⟨passes, hpasses, heq⟩ := ok_of_bind h
    cases heq
    exact ⟨rfl, hpasses⟩
  · rintro ⟨rfl, hpasses⟩
    rw [hpasses]
    rfl

theorem ofScript_eq_error_iff {e : Error} :
    ofScript script catalog config = .error e ↔ ∃ before s after, script = before ++ s :: after ∧
      (∀ t ∈ before, catalog.contains t.kind t.name = true) ∧
      catalog.contains s.kind s.name = false ∧
      e = .unknownPass s.kind.keyword s.name (some s.line) := by
  have hfirst : ofScript script catalog config = .error e ↔
      script.mapM (fun s => catalog.require s.kind s.name (some s.line)) = .error e := by
    rw [ofScript]
    cases script.mapM fun s => catalog.require s.kind s.name (some s.line) <;>
      simp [bind, Except.bind, pure, Except.pure]
  rw [hfirst, mapM_eq_error_iff]
  simp only [Catalog.require_eq_ok_iff, Catalog.require_eq_error_iff, Catalog.contains,
    Option.isSome_iff_exists]

/-- A script is resolved only if all of its steps are found. -/
theorem contains_of_ofScript {p : Pipeline σ} (h : ofScript script catalog config = .ok p) :
    ∀ s ∈ script, catalog.contains s.kind s.name = true := by
  obtain ⟨-, hfound⟩ := ofScript_eq_ok_iff.1 h
  have hboth := hfound.imp fun s q hq => And.intro (Option.isSome_iff_exists.2 ⟨q, hq⟩) hq
  exact ((List.forall₂_and_left _ _).1 hboth).1

end Pipeline

/-- Resolves a script and runs what it was resolved to. -/
def runScript (script : Script) (catalog : Catalog σ) (config : Config) : Edit σ Cfg Bool :=
  match Pipeline.ofScript script catalog config with
  | .ok p => do
    Edit.log p.resolved
    p.run
  | .error e => throw e

/-! ### Prescribed calls -/

/-- **Prescribed.** A history of calls that a pipeline is to make from `b` on, when it ends with `r`
and leaves `b'`. -/
structure Prescribed (p : Pipeline σ) (b : Bench σ Cfg) (r : Except Error Bool) (b' : Bench σ Cfg)
    (history : List (List (List (Event σ)))) : Prop where
  /-- rounds of all steps, in order -/
  rounds : Rounds p 0 p.config.maxRounds b history r b'
  /-- what the result tells of the calls, and what they hand on -/
  course : Course b history.flatten.flatten r b'
  /-- a call on a block is given the block of its node -/
  blocks : ∀ e ∈ history.flatten.flatten, e.GivenBlock
  /-- how many rounds there are -/
  stops : Stops p.config.maxRounds history r

theorem Pipeline.on_run_iff_prescribed {p : Pipeline σ} {b : Bench σ Cfg} {r : Except Error Bool}
    {b' : Bench σ Cfg} : p.run.on b = (r, b') ↔ ∃ history, Prescribed p b r b' history := by
  rw [on_run_iff]
  exact exists_congr fun history =>
    ⟨fun h => ⟨h, h.course, h.givenBlock, h.stops⟩, Prescribed.rounds⟩

/-- **Exactly the prescribed calls.** A script is resolved if every step asks for a pass that is
registered under the kind of the step; if not, the first step that does not is the error, and
nothing is called. A pipeline that a script was resolved to has the passes that were asked for, and
it runs as it does if and only if it makes the prescribed calls. The blocks that a pass is called on
are in the natural order of the addresses of their nodes. -/
theorem pipeline_makes_prescribed_calls (script : Script) (catalog : Catalog σ) (config : Config) :
    ((∃ p, Pipeline.ofScript script catalog config = .ok p) ↔
      ∀ s ∈ script, catalog.contains s.kind s.name = true) ∧
    (∀ e, Pipeline.ofScript script catalog config = .error e →
      (∃ before s after, script = before ++ s :: after ∧
        (∀ t ∈ before, catalog.contains t.kind t.name = true) ∧
        catalog.contains s.kind s.name = false ∧
        e = .unknownPass s.kind.keyword s.name (some s.line)) ∧
      ∀ b, (runScript script catalog config).on b = (.error e, b)) ∧
    (∀ p, Pipeline.ofScript script catalog config = .ok p → p.config = config ∧
      List.Forall₂ (fun s q => catalog.find? s.kind s.name = some q ∧ q.kind = s.kind ∧
        q.name = s.name) script p.passes ∧
      ∀ b r b', p.run.on b = (r, b') ↔ ∃ history, Prescribed p b r b' history) ∧
    ∀ g : Cfg, g.storedIds.map g.addrAt =
      (sortNatural (g.nodes.map Node.addr)).filter fun addr => (g.block? addr).isSome := by
  refine ⟨⟨?_, fun h => ?_⟩, fun e h => ⟨Pipeline.ofScript_eq_error_iff.1 h, fun b => ?_⟩,
    fun p h => ?_, fun g => ?_⟩
  · rintro ⟨p, hp⟩
    obtain ⟨-, hfound⟩ := Pipeline.ofScript_eq_ok_iff.1 hp
    have hboth := hfound.imp fun s q hq => And.intro (Option.isSome_iff_exists.2 ⟨q, hq⟩) hq
    exact ((List.forall₂_and_left _ _).1 hboth).1
  · cases hp : Pipeline.ofScript script catalog config with
    | ok p => exact ⟨p, rfl⟩
    | error e =>
      obtain ⟨before, s, after, rfl, -, hs, -⟩ := Pipeline.ofScript_eq_error_iff.1 hp
      rw [h s (by simp)] at hs
      cases hs
  · rw [runScript, h]
    rfl
  · obtain ⟨hconfig, hfound⟩ := Pipeline.ofScript_eq_ok_iff.1 h
    exact ⟨hconfig, hfound.imp fun s q hq => ⟨hq, Catalog.kind_name_of_find? hq⟩,
      fun b r b' => Pipeline.on_run_iff_prescribed⟩
  · rw [Cfg.storedIds_map_addrAt, Cfg.sortedAddrs_eq]

/-- A script that asks for two stock passes is resolved, and runs as prescribed from any graph on.
One that asks for a pass on blocks as one on graphs is not, and leaves everything as it is. -/
theorem stock_scripts_run :
    (∃ p : Pipeline Unit, Pipeline.ofScript [⟨.block, "remove_dead", 1⟩,
      ⟨.graph, "number_postorder", 2⟩] .stock {} = .ok p ∧
      ∀ b, ∃ history, Prescribed p b (p.run.on b).1 (p.run.on b).2 history) ∧
    ∃ e, Pipeline.ofScript (σ := Unit) [⟨.graph, "remove_dead", 1⟩] .stock {} = .error e ∧
      e = .unknownPass "xform" "remove_dead" (some 1) ∧
      ∀ b, (runScript (σ := Unit) [⟨.graph, "remove_dead", 1⟩] .stock {}).on b = (.error e, b) := by
  constructor
  · obtain ⟨hresolved, -, hruns, -⟩ := pipeline_makes_prescribed_calls
      [⟨.block, "remove_dead", 1⟩, ⟨.graph, "number_postorder", 2⟩] (Catalog.stock (σ := Unit)) {}
    obtain ⟨p, hp⟩ := hresolved.2 (by decide +kernel)
    exact ⟨p, hp, fun b => ((hruns p hp).2.2 b _ _).1 rfl⟩
  · obtain ⟨-, hrefused, -⟩ := pipeline_makes_prescribed_calls [⟨.graph, "remove_dead", 1⟩]
      (Catalog.stock (σ := Unit)) {}
    have he : Pipeline.ofScript (σ := Unit) [⟨.graph, "remove_dead", 1⟩] .stock {} =
        .error (.unknownPass "xform" "remove_dead" (some 1)) := by rfl
    exact ⟨_, he, rfl, (hrefused _ he).2⟩

end FlowText
