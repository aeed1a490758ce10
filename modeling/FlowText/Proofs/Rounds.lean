import FlowText.Proofs.PassCalls

/-!
# Runs of a pipeline

`Rounds` says which rounds a pipeline runs and which calls each of them makes, and a run is always
one of these (`Pipeline.on_run_iff`). What is known of the calls of any run is said in `Course`: the
result tells whether some call reported a change, a failing call is the last one, and what a call
leaves is what the next one is given. How many rounds there are is said in `Stops`.
-/

namespace FlowText

variable {σ : Type}

/-! ### Steps and rounds -/

/-- What is logged in front of the calls of a pass. -/
def Pass.begun (p : Pass σ) : LogLine := debug s!"Running {p.title}"

/-- What is logged behind the calls of a pass. -/
def Pass.ended (config : Config) (p : Pass σ) (changed : Bool) : LogLine :=
  if changed && config.logChanges then info s!"{p.title} changed the graph"
  else debug s!"{p.title} changed={changed}"

/-- What is logged behind a round without changes. -/
def Pipeline.settled (rounds : Nat) : LogLine := debug s!"Pipeline stable after {rounds} rounds"

/-- **Step.** The calls of a pass are made in a row, on the graph as the step finds it. -/
inductive Stepped (config : Config) (p : Pass σ) (b : Bench σ Cfg) :
    List (Event σ) → Except Error Bool → Bench σ Cfg → Prop where
  | ok {events : List (Event σ)} {changed : Bool} {b' : Bench σ Cfg}
    (calls : InRow Call.Made (p.calls b.subject) (b.note p.begun) events (.ok changed) b') :
    Stepped config p b events (.ok changed) (b'.note (p.ended config changed))
  | failed {events : List (Event σ)} {e : Error} {b' : Bench σ Cfg}
    (calls : InRow Call.Made (p.calls b.subject) (b.note p.begun) events (.error e) b') :
    Stepped config p b events (.error e) b'

/-- **Round.** The steps of all passes are taken in a row, in their order. -/
abbrev RoundMade (p : Pipeline σ) :
    Bench σ Cfg → List (List (Event σ)) → Except Error Bool → Bench σ Cfg → Prop :=
  InRow (Stepped p.config) p.passes

/-- **Rounds.** Up to `more` rounds behind the first `done` ones. A round that changed something is
followed by another one if there is one left; a round that changed nothing and a round that failed
are the last. -/
inductive Rounds (p : Pipeline σ) : (done more : Nat) → Bench σ Cfg →
    List (List (List (Event σ))) → Except Error Bool → Bench σ Cfg → Prop where
  | out (done : Nat) (b : Bench σ Cfg) : Rounds p done 0 b [] (.ok false) b
  | again {done more : Nat} {b b₁ b₂ : Bench σ Cfg} {round : List (List (Event σ))}
    {history : List (List (List (Event σ)))} {r : Except Error Bool}
    (now : RoundMade p b round (.ok true) b₁) (later : Rounds p (done + 1) more b₁ history r b₂) :
    Rounds p done (more + 1) b (round :: history) (r.map (true || ·)) b₂
  | stable {done more : Nat} {b b₁ : Bench σ Cfg} {round : List (List (Event σ))}
    (now : RoundMade p b round (.ok false) b₁) :
    Rounds p done (more + 1) b [round] (.ok false) (b₁.note (Pipeline.settled (done + 1)))
  | failed {done more : Nat} {b b₁ : Bench σ Cfg} {round : List (List (Event σ))} {e : Error}
    (now : RoundMade p b round (.error e) b₁) : Rounds p done (more + 1) b [round] (.error e) b₁

namespace Pipeline

theorem on_call_iff {config : Config} {pass : Pass σ} {b : Bench σ Cfg} {r : Except Error Bool}
    {b' : Bench σ Cfg} :
    (call config pass).on b = (r, b') ↔ ∃ events, Stepped config pass b events r b' := by
  have hcall : (call config pass).on b = match pass.run.on (b.note pass.begun) with
      | (.ok changed, b₁) => (.ok changed, b₁.note (pass.ended config changed))
      | (.error e, b₁) => (.error e, b₁) := by
    have hlines : call config pass = do
        Edit.log pass.begun
        let changed ← pass.run
        Edit.log (pass.ended config changed)
        return changed := rfl
    rw [hlines, Edit.on_bind_of_ok (Edit.on_log _ b), Edit.on_bind]
    cases pass.run.on (b.note pass.begun) with
    | mk r b₁ => cases r <;> rfl
  rw [hcall]
  constructor
  · intro h
    cases hr : pass.run.on (b.note pass.begun) with
    | mk now b₁ =>
      obtain ⟨events, hevents⟩ := Pass.on_run_iff.1 hr
      rw [hr] at h
      cases now with
      | ok changed =>
        cases h
        exact ⟨events, .ok hevents⟩
      | error e =>
        cases h
        exact ⟨events, .failed hevents⟩
  · rintro ⟨events, hevents⟩
    cases hevents with
    | ok calls => rw [Pass.on_run_iff.2 ⟨events, calls⟩]
    | failed calls => rw [Pass.on_run_iff.2 ⟨events, calls⟩]

theorem on_round_iff {p : Pipeline σ} {b : Bench σ Cfg} {r : Except Error Bool}
    {b' : Bench σ Cfg} : p.round.on b = (r, b') ↔ ∃ round, RoundMade p b round r b' :=
  Edit.on_anyChange_iff fun _ _ _ _ => on_call_iff

theorem on_rounds_succ (p : Pipeline σ) (done more : Nat) (b : Bench σ Cfg) :
    (p.rounds done (more + 1)).on b = match p.round.on b with
      | (.ok true, b₁) =>
        (((p.rounds (done + 1) more).on b₁).1.map (true || ·), ((p.rounds (done + 1) more).on b₁).2)
      | (.ok false, b₁) => (.ok false, b₁.note (settled (done + 1)))
      | (.error e, b₁) => (.error e, b₁) := by
  rw [rounds, Edit.on_bind]
  cases p.round.on b with
  | mk now b₁ =>
    cases now with
    | error e => rfl
    | ok changed =>
      cases changed with
      | false => rfl
      | true =>
        dsimp only
        rw [if_pos rfl, Edit.on_bind]
        cases (p.rounds (done + 1) more).on b₁ with
        | mk r b₂ => cases r <;> rfl

/-- The induction is on the number of rounds that are left. -/
theorem on_rounds_iff {p : Pipeline σ} {done more : Nat} {b : Bench σ Cfg} {r : Except Error Bool}
    {b' : Bench σ Cfg} :
    (p.rounds done more).on b = (r, b') ↔ ∃ history, Rounds p done more b history r b' := by
  constructor
  · intro h
    induction more generalizing done b r b' with
    | zero =>
      cases h
      exact ⟨[], .out done b⟩
    | succ more ih =>
      rw [on_rounds_succ] at h
      cases hnow : p.round.on b with
      | mk now b₁ =>
        obtain ⟨round, hround⟩ := on_round_iff.1 hnow
        rw [hnow] at h
        cases now with
        | error e =>
          cases h
          exact ⟨[round], .failed hround⟩
        | ok changed =>
          cases changed with
          | false =>
            cases h
            exact ⟨[round], .stable hround⟩
          | true =>
            cases hlater : (p.rounds (done + 1) more).on b₁ with
            | mk later b₂ =>
              obtain ⟨history, hhistory⟩ := ih hlater
              dsimp only at h
              rw [hlater] at h
              cases h
              exact ⟨round :: history, .again hround hhistory⟩
  · rintro ⟨history, h⟩
    induction h with
    | out done b => rfl
    | again now later ih => rw [on_rounds_succ, on_round_iff.2 ⟨_, now⟩]; dsimp only; rw [ih]
    | stable now => rw [on_rounds_succ, on_round_iff.2 ⟨_, now⟩]
    | failed now => rw [on_rounds_succ, on_round_iff.2 ⟨_, now⟩]

/-- **Run.** The rounds that can be made are the one run there is. -/
theorem on_run_iff {p : Pipeline σ} {b : Bench σ Cfg} {r : Except Error Bool} {b' : Bench σ Cfg} :
    p.run.on b = (r, b') ↔ ∃ history, Rounds p 0 p.config.maxRounds b history r b' :=
  on_rounds_iff

end Pipeline

end FlowText
