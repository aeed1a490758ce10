import FlowText.Proofs.Rounds
import Mathlib.Logic.Function.Iterate

/-!
# Edits that act as functions

Work may be no more than a function of its subject: it never fails, it remembers nothing, and it
tells truthfully whether there was a change (`Edit.ActsAs`). If every change makes a measure smaller
(`Descends`), none is ever undone. So work in a row acts as the functions one after the other
(`Edit.ActsAs.anyChange`), and a pipeline acts as its round, repeated as often as there may be
rounds: the rounds that it saves by stopping early would change nothing (`Pipeline.actsAs_run`).
-/

namespace FlowText

/-! ### Descent -/

section Descent

variable {α ι : Type} {μ : α → Nat} {f g : α → α}

/-- **Descends.** Where the function changes something, the measure gets smaller. -/
def Descends (μ : α → Nat) (f : α → α) : Prop := ∀ a, f a ≠ a → μ (f a) < μ a

theorem Descends.le (h : Descends μ f) (a : α) : μ (f a) ≤ μ a := by
  by_cases ha : f a = a
  · rw [ha]
  · exact Nat.le_of_lt (h a ha)

theorem descends_id : Descends μ id := fun _ h => absurd rfl h

/-- No change is undone by another one. -/
theorem Descends.comp_eq_iff (hf : Descends μ f) (hg : Descends μ g) (a : α) :
    g (f a) = a ↔ f a = a ∧ g a = a := by
  constructor
  · intro h
    have ha : f a = a := by
      by_contra hne
      have hlt := hf a hne
      have hle := hg.le (f a)
      rw [h] at hle
      omega
    exact ⟨ha, by rwa [ha] at h⟩
  · rintro ⟨hfa, hga⟩
    rw [hfa, hga]

theorem Descends.comp (hf : Descends μ f) (hg : Descends μ g) : Descends μ fun a => g (f a) := by
  intro a h
  change g (f a) ≠ a at h
  change μ (g (f a)) < μ a
  by_cases hfa : f a = a
  · rw [hfa] at h ⊢
    exact hg a h
  · exact Nat.lt_of_le_of_lt (hg.le (f a)) (hf a hfa)

/-- The functions of a list, one after the other. -/
def inTurn (fs : ι → α → α) (items : List ι) (a : α) : α := items.foldl (fun a i => fs i a) a

theorem Descends.inTurn {fs : ι → α → α} {items : List ι} (h : ∀ i ∈ items, Descends μ (fs i)) :
    Descends μ (inTurn fs items) := by
  induction items with
  | nil => exact descends_id
  | cons i items ih =>
    obtain ⟨hi, hitems⟩ := List.forall_mem_cons.1 h
    exact hi.comp (ih hitems)

/-- What all together leave as it is, each of them leaves as it is. -/
theorem Descends.inTurn_eq_iff {fs : ι → α → α} {items : List ι}
    (h : ∀ i ∈ items, Descends μ (fs i)) (a : α) :
    FlowText.inTurn fs items a = a ↔ ∀ i ∈ items, fs i a = a := by
  induction items with
  | nil => exact iff_of_true rfl fun i hi => absurd hi List.not_mem_nil
  | cons i items ih =>
    obtain ⟨hi, hitems⟩ := List.forall_mem_cons.1 h
    rw [List.forall_mem_cons, ← ih hitems]
    exact hi.comp_eq_iff (.inTurn hitems) a

theorem Descends.iterate (h : Descends μ f) (n : Nat) : Descends μ f^[n] := by
  induction n with
  | zero => exact descends_id
  | succ n ih =>
    rw [Function.iterate_succ]
    exact h.comp ih

/-- **Settled.** As many repetitions as the measure says are enough. -/
theorem Descends.settles (h : Descends μ f) {n : Nat} {a : α} (hn : μ a ≤ n) :
    f (f^[n] a) = f^[n] a := by
  induction n generalizing a with
  | zero =>
    by_contra hne
    have := h a hne
    omega
  | succ n ih =>
    rw [Function.iterate_succ_apply]
    by_cases ha : f a = a
    · rw [ha, Function.iterate_fixed ha, ha]
    · have := h a ha
      exact ih (by omega)

end Descent

/-! ### Edits -/

namespace Edit

variable {σ α ι : Type} {μ : α → Nat}

/-- **Acts.** The edit does to its subject what the function does, and tells truthfully whether that
is a change. It does not fail and remembers nothing. -/
def ActsAs (e : Edit σ α Bool) (f : α → α) : Prop :=
  ∀ b : Bench σ α, ∃ changed log, e.on b = (.ok changed, ⟨f b.subject, b.memory, log⟩) ∧
    (changed = true ↔ f b.subject ≠ b.subject)

/-- **In a row.** Work on items acts as what it does to each of them in turn. -/
theorem ActsAs.anyChange {items : List ι} {work : ι → Edit σ α Bool} {fs : ι → α → α}
    (hwork : ∀ i ∈ items, (work i).ActsAs (fs i)) (hfs : ∀ i ∈ items, Descends μ (fs i)) :
    (anyChange items work).ActsAs (inTurn fs items) := by
  induction items with
  | nil => exact fun b => ⟨false, b.log, rfl, by simp [inTurn]⟩
  | cons i items ih =>
    intro b
    obtain ⟨hi, hitems⟩ := List.forall_mem_cons.1 hwork
    obtain ⟨hdi, hditems⟩ := List.forall_mem_cons.1 hfs
    obtain ⟨now, log, hnow, hnow'⟩ := hi b
    obtain ⟨later, log', hlater, hlater'⟩ := ih hitems hditems ⟨fs i b.subject, b.memory, log⟩
    refine ⟨now || later, log', ?_, ?_⟩
    · rw [on_anyChange_cons, hnow]
      dsimp only
      rw [hlater]
      rfl
    -- nothing changed in the end if nothing changed at any time
    · have hall := hdi.comp_eq_iff (.inTurn hditems) b.subject
      change _ ↔ inTurn fs items (fs i b.subject) ≠ b.subject
      rw [Bool.or_eq_true, hnow', hlater', Ne, Ne, Ne, hall]
      by_cases ha : fs i b.subject = b.subject
      · simp [ha]
      · simp [ha]

end Edit

/-! ### Pipelines -/

namespace Pipeline

variable {σ : Type} {μ : Cfg → Nat} {f : Cfg → Cfg} {p : Pipeline σ}

theorem actsAs_call {pass : Pass σ} (h : pass.run.ActsAs f) (config : Config) :
    (call config pass).ActsAs f := by
  intro b
  obtain ⟨changed, log, hrun, hchanged⟩ := h (b.note pass.begun)
  refine ⟨changed, log.push (pass.ended config changed), ?_, hchanged⟩
  obtain ⟨events, hcalls⟩ := Pass.on_run_iff.1 hrun
  have hstep : Stepped config pass b events (.ok changed)
      (Bench.note ⟨f b.subject, b.memory, log⟩ (pass.ended config changed)) := .ok hcalls
  exact on_call_iff.2 ⟨events, hstep⟩

/-- A pipeline whose round acts as a function acts as its repetition. The induction is on the number
of rounds that are left. -/
theorem actsAs_rounds (hround : p.round.ActsAs f) (hf : Descends μ f) (done more : Nat) :
    (p.rounds done more).ActsAs f^[more] := by
  induction more generalizing done with
  | zero => exact fun b => ⟨false, b.log, rfl, by simp⟩
  | succ more ih =>
    intro b
    obtain ⟨now, log, hnow, hnow'⟩ := hround b
    rw [Function.iterate_succ_apply]
    cases now with
    | false =>
      have hsame : f b.subject = b.subject := by simpa using hnow'
      refine ⟨false, log.push (settled (done + 1)), ?_, ?_⟩
      · rw [on_rounds_succ, hnow, hsame, Function.iterate_fixed hsame]
        rfl
      · rw [hsame, Function.iterate_fixed hsame]
        simp
    | true =>
      have hne : f b.subject ≠ b.subject := hnow'.1 rfl
      obtain ⟨later, log', hlater, -⟩ := ih (done + 1) ⟨f b.subject, b.memory, log⟩
      refine ⟨true, log', ?_, iff_of_true rfl fun heq => ?_⟩
      · rw [on_rounds_succ, hnow]
        dsimp only
        rw [hlater]
        rfl
      · exact hne ((hf.comp_eq_iff (hf.iterate more) b.subject).1 heq).1

/-- **Run.** A pipeline acts as its passes in turn, repeated for every round that it may run. -/
theorem actsAs_run {ι : Type} {items : List ι} {pass : ι → Pass σ} {act : ι → Cfg → Cfg}
    (hpasses : p.passes = items.map pass) (hacts : ∀ i ∈ items, (pass i).run.ActsAs (act i))
    (hdescends : ∀ i ∈ items, Descends μ (act i)) :
    p.run.ActsAs (inTurn act items)^[p.config.maxRounds] := by
  have hround : p.round.ActsAs (inTurn act items) := by
    have hmap : p.round = Edit.anyChange items fun i => call p.config (pass i) := by
      rw [round, hpasses, Edit.anyChange, List.foldlM_map]
      rfl
    rw [hmap]
    exact .anyChange (fun i hi => actsAs_call (hacts i hi) p.config) hdescends
  exact actsAs_rounds hround (.inTurn hdescends) 0 p.config.maxRounds

end Pipeline

end FlowText
