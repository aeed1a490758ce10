import FlowText.Pass

/-!
# What edits do

`Edit.on` runs an edit, and what it gives for a composition is found from the parts (`on_bind` and
the like). Work on the items of a list goes from item to item until one fails (`InRow`), and
`on_anyChange_iff` says that `Edit.anyChange` does just that.
-/

namespace FlowText

/-- What is at hand with one more log line. -/
def Bench.note {σ α : Type} (b : Bench σ α) (line : LogLine) : Bench σ α :=
  { b with log := b.log.push line }

namespace Edit

variable {σ α β γ : Type}

theorem on_log (line : LogLine) (b : Bench σ α) : (log line).on b = (.ok (), b.note line) := rfl

theorem on_subject (b : Bench σ α) : (subject : Edit σ α α).on b = (.ok b.subject, b) := rfl

/-- What follows is not done behind a failure. -/
theorem on_bind (x : Edit σ α β) (f : β → Edit σ α γ) (b : Bench σ α) :
    (x >>= f).on b =
      match x.on b with
      | (.ok y, b') => (f y).on b'
      | (.error e, b') => (.error e, b') := by
  change (ExceptT.bindCont (fun y => f y) (x.on b).1) (x.on b).2 = _
  cases h : x.on b with
  | mk r b' => cases r <;> rfl

theorem on_bind_of_ok {x : Edit σ α β} {b b' : Bench σ α} {y : β} (h : x.on b = (.ok y, b'))
    (f : β → Edit σ α γ) : (x >>= f).on b = (f y).on b' := by
  rw [on_bind, h]

end Edit

/-! ### Items in a row -/

variable {σ α ι η : Type}

/-- **In a row.** Work on items from `b` on, one after the other until one fails. `R i b h r b'`
says that the work on `i` from `b` on took the course `h`, ended with `r` and left `b'`. -/
inductive InRow (R : ι → Bench σ α → η → Except Error Bool → Bench σ α → Prop) :
    List ι → Bench σ α → List η → Except Error Bool → Bench σ α → Prop where
  | done (b : Bench σ α) : InRow R [] b [] (.ok false) b
  | next {i : ι} {is : List ι} {b b₁ b₂ : Bench σ α} {h : η} {hs : List η} {changed : Bool}
    {r : Except Error Bool} (now : R i b h (.ok changed) b₁) (later : InRow R is b₁ hs r b₂) :
    InRow R (i :: is) b (h :: hs) (r.map (changed || ·)) b₂
  | failed {i : ι} {is : List ι} {b b₁ : Bench σ α} {h : η} {e : Error}
    (now : R i b h (.error e) b₁) : InRow R (i :: is) b [h] (.error e) b₁

namespace Edit

/-- Does the work for the items of a list, after what was done before. -/
def anyChangeFrom (changed : Bool) (items : List ι) (work : ι → Edit σ α Bool) : Edit σ α Bool :=
  items.foldlM (fun changed i => return (← work i) || changed) changed

theorem on_anyChangeFrom_cons (changed : Bool) (i : ι) (is : List ι) (work : ι → Edit σ α Bool)
    (b : Bench σ α) :
    (anyChangeFrom changed (i :: is) work).on b =
      match (work i).on b with
      | (.ok now, b₁) => (anyChangeFrom (now || changed) is work).on b₁
      | (.error e, b₁) => (.error e, b₁) := by
  rw [anyChangeFrom, List.foldlM_cons, on_bind, on_bind]
  cases h : (work i).on b with
  | mk r b₁ => cases r <;> rfl

/-- Changes that happened before count as well. -/
theorem on_anyChangeFrom (changed : Bool) (items : List ι) (work : ι → Edit σ α Bool)
    (b : Bench σ α) :
    (anyChangeFrom changed items work).on b =
      (((anyChange items work).on b).1.map (changed || ·), ((anyChange items work).on b).2) := by
  induction items generalizing changed b with
  | nil =>
    change (Except.ok changed, b) = (Except.ok (changed || false), b)
    rw [Bool.or_false]
  | cons i is ih =>
    change _ = (((anyChangeFrom false (i :: is) work).on b).1.map (changed || ·),
      ((anyChangeFrom false (i :: is) work).on b).2)
    rw [on_anyChangeFrom_cons, on_anyChangeFrom_cons]
    cases h : (work i).on b with
    | mk r b₁ =>
      cases r with
      | error e => rfl
      | ok now =>
        dsimp only
        rw [ih, ih (now || false)]
        cases ((anyChange is work).on b₁).1 with
        | error e => rfl
        | ok later => cases now <;> cases changed <;> rfl

theorem on_anyChange_nil (work : ι → Edit σ α Bool) (b : Bench σ α) :
    (anyChange [] work).on b = (.ok false, b) := rfl

theorem on_anyChange_cons (i : ι) (is : List ι) (work : ι → Edit σ α Bool) (b : Bench σ α) :
    (anyChange (i :: is) work).on b =
      match (work i).on b with
      | (.ok changed, b₁) =>
        (((anyChange is work).on b₁).1.map (changed || ·), ((anyChange is work).on b₁).2)
      | (.error e, b₁) => (.error e, b₁) := by
  refine (on_anyChangeFrom_cons false i is work b).trans ?_
  cases h : (work i).on b with
  | mk r b₁ =>
    cases r with
    | error e => rfl
    | ok changed =>
      dsimp only
      rw [on_anyChangeFrom, Bool.or_false]

/-- **Any change.** Work that takes a course for each item takes them in a row for all. -/
theorem on_anyChange_iff {work : ι → Edit σ α Bool}
    {R : ι → Bench σ α → η → Except Error Bool → Bench σ α → Prop}
    (hR : ∀ i b r b', (work i).on b = (r, b') ↔ ∃ h, R i b h r b') {items : List ι} {b : Bench σ α}
    {r : Except Error Bool} {b' : Bench σ α} :
    (anyChange items work).on b = (r, b') ↔ ∃ hs, InRow R items b hs r b' := by
  constructor
  · intro heq
    induction items generalizing b r b' with
    | nil =>
      cases heq
      exact ⟨[], .done b⟩
    | cons i is ih =>
      rw [on_anyChange_cons] at heq
      cases hw : (work i).on b with
      | mk now b₁ =>
        obtain ⟨h, hnow⟩ := (hR i b now b₁).1 hw
        rw [hw] at heq
        cases now with
        | error e =>
          cases heq
          exact ⟨[h], .failed hnow⟩
        | ok changed =>
          cases hl : (anyChange is work).on b₁ with
          | mk later b₂ =>
            obtain ⟨hs, hlater⟩ := ih hl
            dsimp only at heq
            rw [hl] at heq
            cases heq
            exact ⟨h :: hs, .next hnow hlater⟩
  · rintro ⟨hs, hrow⟩
    induction hrow with
    | done b => rfl
    | next hnow _ ih => rw [on_anyChange_cons, (hR _ _ _ _).2 ⟨_, hnow⟩]; dsimp only; rw [ih]
    | failed hnow => rw [on_anyChange_cons, (hR _ _ _ _).2 ⟨_, hnow⟩]

end Edit

end FlowText
