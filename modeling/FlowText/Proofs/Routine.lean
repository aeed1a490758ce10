import Mathlib.Logic.Relation

/-!
# Routines that call each other

A routine ends, or it makes a call and goes on with what comes back. A program has a routine for
each call, and nothing keeps it from calling itself in circles. So it is run to a depth: a run is
cut off where calls are nested deeper (`Program.runTo`). A routine makes finitely many calls of its
own, so a call that is not cut off at some depth comes to its end.

* `Routine.Meets` — what is sure of the calls and the result of a routine, if the calls give back
  what they are to.
* `Program.Keeps` — this for every routine of a program; `Keeps.result` and `Keeps.of_nested` say
  what it gives for whole runs, and `Keeps.ends` that calls end if they go down.
-/

namespace FlowText

/-- **Routine.** It ends with a result, or makes a call and goes on with what comes back. If the
call fails, the routine fails in the same way. -/
inductive Routine {κ : Type} (ρ : κ → Type) (ε α : Type) where
  | done (r : Except ε α)
  | call (c : κ) (next : ρ c → Routine ρ ε α)

variable {κ : Type} {ρ : κ → Type} {ε α β : Type}

namespace Routine

/-- One routine behind another. -/
protected def bind : Routine ρ ε α → (α → Routine ρ ε β) → Routine ρ ε β
  | done (.ok a), f => f a
  | done (.error e), _ => done (.error e)
  | call c next, f => call c fun a => (next a).bind f

instance : Monad (Routine ρ ε) where
  pure a := done (.ok a)
  bind := Routine.bind

/-- **Run.** The result of a routine whose calls are answered. There is none if an answer is
missing. -/
def run (answer : (c : κ) → Option (Except ε (ρ c))) : Routine ρ ε α → Option (Except ε α)
  | done r => some r
  | call c next =>
    match answer c with
    | none => none
    | some (.error e) => some (.error e)
    | some (.ok a) => (next a).run answer

/-- The calls that are made, up to one that fails or has no answer. -/
def made (answer : (c : κ) → Option (Except ε (ρ c))) : Routine ρ ε α → List κ
  | done _ => []
  | call c next =>
    c :: match answer c with
      | some (.ok a) => (next a).made answer
      | _ => []

/-- **Meets.** All calls are of the kind `pre`, and the result is of the kind `Q`, if every call
gives back what `post` says of it. -/
def Meets (pre : κ → Prop) (post : (c : κ) → Except ε (ρ c) → Prop) (Q : Except ε α → Prop) :
    Routine ρ ε α → Prop
  | done r => Q r
  | call c next =>
    pre c ∧ (∀ e, post c (.error e) → Q (.error e)) ∧ ∀ a, post c (.ok a) →
      (next a).Meets pre post Q

variable {pre : κ → Prop} {post : (c : κ) → Except ε (ρ c) → Prop} {P : Except ε α → Prop}
  {Q : Except ε β → Prop}

/-- A routine behind another has to do with its results only. -/
theorem Meets.bind {x : Routine ρ ε α} {f : α → Routine ρ ε β} (hx : x.Meets pre post P)
    (herror : ∀ e, P (.error e) → Q (.error e)) (hf : ∀ a, P (.ok a) → (f a).Meets pre post Q) :
    (x >>= f).Meets pre post Q := by
  induction x with
  | done r =>
    cases r with
    | error e => exact herror e hx
    | ok a => exact hf a hx
  | call c next ih =>
    obtain ⟨hc, he, hnext⟩ := hx
    exact ⟨hc, fun e h => herror e (he e h), fun a h => ih a (hnext a h)⟩

variable {answer : (c : κ) → Option (Except ε (ρ c))}

/-- What is sure of the result. -/
theorem Meets.result {x : Routine ρ ε α} (hx : x.Meets pre post P)
    (hanswer : ∀ c r, pre c → answer c = some r → post c r) {r : Except ε α}
    (h : x.run answer = some r) : P r := by
  induction x with
  | done r' =>
    cases h
    exact hx
  | call c next ih =>
    obtain ⟨hc, he, hnext⟩ := hx
    rw [run] at h
    split at h
    · cases h
    · next e hae =>
      cases h
      exact he e (hanswer c _ hc hae)
    · next a haa => exact ih a (hnext a (hanswer c _ hc haa)) h

/-- What is sure of the calls. -/
theorem Meets.of_mem_made {x : Routine ρ ε α} (hx : x.Meets pre post P)
    (hanswer : ∀ c r, pre c → answer c = some r → post c r) {c : κ}
    (h : c ∈ x.made answer) : pre c := by
  induction x with
  | done r => cases h
  | call c' next ih =>
    obtain ⟨hc, he, hnext⟩ := hx
    rw [made, List.mem_cons] at h
    rcases h with rfl | h
    · exact hc
    · split at h
      · next a haa => exact ih a (hnext a (hanswer c' _ hc haa)) h
      · cases h

/-- A routine whose calls are all answered has a result. -/
theorem Meets.ends {x : Routine ρ ε α} (hx : x.Meets pre post P)
    (hanswer : ∀ c, pre c → ∃ r, answer c = some r ∧ post c r) : ∃ r, x.run answer = some r := by
  induction x with
  | done r => exact ⟨r, rfl⟩
  | call c next ih =>
    obtain ⟨hc, he, hnext⟩ := hx
    obtain ⟨r, hr, hpost⟩ := hanswer c hc
    rw [run, hr]
    cases r with
    | error e => exact ⟨.error e, rfl⟩
    | ok a => exact ih a (hnext a hpost)

end Routine

/-- A routine for each call. -/
abbrev Program {κ : Type} (ρ : κ → Type) (ε : Type) := (c : κ) → Routine ρ ε (ρ c)

namespace Program

/-- **Run to a depth.** There is no result where calls are nested deeper. -/
def runTo (p : Program ρ ε) : Nat → (c : κ) → Option (Except ε (ρ c))
  | 0, _ => none
  | n + 1, c => (p c).run (p.runTo n)

/-- One call makes the other, in a run to some depth. -/
def Makes (p : Program ρ ε) (c c' : κ) : Prop := ∃ n, c' ∈ (p c).made (p.runTo n)

/-- **Keeps.** Every call of a domain gives back what it is to, and makes only calls of the domain
that are below it. -/
def Keeps (p : Program ρ ε) (dom : κ → Prop) (below : κ → κ → Prop)
    (post : (c : κ) → Except ε (ρ c) → Prop) : Prop :=
  ∀ c, dom c → (p c).Meets (fun c' => dom c' ∧ below c' c) post (post c)

namespace Keeps

variable {p : Program ρ ε} {dom : κ → Prop} {below : κ → κ → Prop} {post : (c : κ) →
  Except ε (ρ c) → Prop}

/-- **Results.** The induction is on the depth, so it makes no difference whether calls go down. -/
theorem result (h : p.Keeps dom below post) {n : Nat} {c : κ} (hc : dom c) {r : Except ε (ρ c)}
    (hr : p.runTo n c = some r) : post c r := by
  induction n generalizing c with
  | zero => cases hr
  | succ n ih => exact (h c hc).result (fun c' r' hc' hr' => ih hc'.1 hr') hr

/-- **Calls.** -/
theorem of_makes (h : p.Keeps dom below post) {c c' : κ} (hc : dom c) (hm : p.Makes c c') :
    dom c' ∧ below c' c := by
  obtain ⟨n, hn⟩ := hm
  exact (h c hc).of_mem_made (fun c' r' hc' hr' => h.result hc'.1 hr') hn

/-- **Nested calls.** -/
theorem of_nested (h : p.Keeps dom below post) (htrans : ∀ a b c, below a b → below b c → below a c)
    {c c' : κ} (hc : dom c) (hm : Relation.TransGen p.Makes c c') : dom c' ∧ below c' c := by
  induction hm with
  | single hm => exact h.of_makes hc hm
  | tail _ hm ih =>
    obtain ⟨hmid, hbelow⟩ := ih
    obtain ⟨hend, hlast⟩ := h.of_makes hmid hm
    exact ⟨hend, htrans _ _ _ hlast hbelow⟩

/-- **Calls end** if what is below has a lower rank, and the rank bounds how deep calls are
nested. -/
theorem ends (h : p.Keeps dom below post) {rank : κ → Nat}
    (hrank : ∀ c c', dom c' → below c' c → rank c' < rank c) {n : Nat} {c : κ} (hc : dom c)
    (hn : rank c < n) : ∃ r, p.runTo n c = some r := by
  induction n generalizing c with
  | zero => cases hn
  | succ n ih =>
    refine (h c hc).ends fun c' hc' => ?_
    obtain ⟨r, hr⟩ := ih hc'.1 (Nat.lt_of_lt_of_le (hrank c c' hc'.1 hc'.2) (Nat.le_of_lt_succ hn))
    exact ⟨r, hr, h.result hc'.1 hr⟩

end Keeps

end Program

end FlowText
