import FlowText.Expr.Read
import FlowText.Proofs.Rounds

/-!
# What is known of a run

`Course` is what holds of the calls of any run. It holds of one call, of calls in a row
(`InRow.course`), and so of steps, rounds and runs (`Rounds.course`). How many rounds there are is
said in `Stops`.
-/

namespace FlowText

variable {σ ι η : Type}

/-- What calls hand on: the graph, and what the passes remember. -/
def Bench.handed (b : Bench σ Cfg) : Cfg × σ := (b.subject, b.memory)

/-- **Linked.** Each call is given what the one before has left. -/
def Linked : Cfg × σ → List (Event σ) → Cfg × σ → Prop
  | s, [], t => s = t
  | s, e :: events, t => e.before.handed = s ∧ Linked e.after.handed events t

/-- Calls that go on where others stopped are linked with them. -/
theorem Linked.append {s t u : Cfg × σ} {events more : List (Event σ)} (h : Linked s events t)
    (h' : Linked t more u) : Linked s (events ++ more) u := by
  induction events generalizing s with
  | nil =>
    obtain rfl : s = t := h
    exact h'
  | cons e events ih => exact ⟨h.1, ih h.2⟩

/-- **Course.** What is known of calls that were made from `b` on, ended with `r` and left `b'`. -/
structure Course (b : Bench σ Cfg) (events : List (Event σ)) (r : Except Error Bool)
    (b' : Bench σ Cfg) : Prop where
  linked : Linked b.handed events b'.handed
  /-- without a failure the result tells whether a call has reported a change -/
  ok : ∀ changed, r = .ok changed → (∀ e ∈ events, ∃ c, e.outcome = .ok c) ∧
    (changed = true ↔ ∃ e ∈ events, e.outcome = .ok true)
  /-- a call that fails is the last one, and its failure is the result -/
  error : ∀ err, r = .error err → ∃ earlier last, events = earlier ++ [last] ∧
    (∀ e ∈ earlier, ∃ c, e.outcome = .ok c) ∧ last.outcome = .error err ∧ last.after = b'

namespace Course

variable {b b₁ b₂ : Bench σ Cfg} {events more : List (Event σ)} {r : Except Error Bool}

/-- No call is a course without a change. -/
theorem nil (b : Bench σ Cfg) : Course b [] (.ok false) b where
  linked := rfl
  ok changed h := by
    cases h
    simp
  error err h := nomatch h

theorem single (e : Event σ) : Course e.before [e] e.outcome e.after where
  linked := ⟨rfl, rfl⟩
  ok changed h := by simp [h]
  error err h := ⟨[], e, rfl, by simp, h, rfl⟩

/-- What comes before a call that fails are the calls that did not. -/
theorem append {changed : Bool} (h : Course b events (.ok changed) b₁) (h' : Course b₁ more r b₂) :
    Course b (events ++ more) (r.map (changed || ·)) b₂ where
  linked := h.linked.append h'.linked
  ok all heq := by
    obtain ⟨now, hnow⟩ := h.ok changed rfl
    obtain ⟨later, rfl, rfl⟩ := ok_of_map heq
    obtain ⟨after, hafter⟩ := h'.ok later rfl
    refine ⟨List.forall_mem_append.2 ⟨now, after⟩, ?_⟩
    rw [Bool.or_eq_true, hnow, hafter]
    simp only [List.mem_append, or_and_right, exists_or]
  error err heq := by
    obtain ⟨earlier, last, rfl, hok, hlast, hb⟩ := h'.error err (error_of_map heq)
    refine ⟨events ++ earlier, last, (List.append_assoc _ _ _).symm, ?_, hlast, hb⟩
    exact List.forall_mem_append.2 ⟨(h.ok changed rfl).1, hok⟩

/-- Log lines are not handed on. -/
theorem of_note {line : LogLine} (h : Course (b.note line) events r b₁) : Course b events r b₁ :=
  ⟨h.linked, h.ok, h.error⟩

/-- A line of the log is no part of a course. -/
theorem note {changed : Bool} (h : Course b events (.ok changed) b₁) (line : LogLine) :
    Course b events (.ok changed) (b₁.note line) :=
  ⟨h.linked, h.ok, fun _ he => nomatch he⟩

end Course

/-- **In a row.** What is known of the course that each item takes is known of all of them. -/
theorem InRow.course {R : ι → Bench σ Cfg → η → Except Error Bool → Bench σ Cfg → Prop}
    {f : η → List (Event σ)} (hR : ∀ i b h r b', R i b h r b' → Course b (f h) r b')
    {items : List ι} {b b' : Bench σ Cfg} {hs : List η} {r : Except Error Bool}
    (h : InRow R items b hs r b') : Course b (hs.flatMap f) r b' := by
  induction h with
  | done b => exact .nil b
  | next now _ ih => exact (hR _ _ _ _ _ now).append ih
  | @failed i is b b₁ h e now =>
    rw [List.flatMap_cons, List.flatMap_nil, List.append_nil]
    exact hR _ _ _ _ _ now

/-- What holds of the course of any item holds of each of them. -/
theorem InRow.forall_mem {R : ι → Bench σ Cfg → η → Except Error Bool → Bench σ Cfg → Prop}
    {P : η → Prop} {items : List ι} (hR : ∀ i ∈ items, ∀ b h r b', R i b h r b' → P h)
    {b b' : Bench σ Cfg} {hs : List η} {r : Except Error Bool} (h : InRow R items b hs r b') :
    ∀ x ∈ hs, P x := by
  induction h with
  | done b => exact fun x hx => absurd hx List.not_mem_nil
  | next now _ ih =>
    obtain ⟨hnow, hlater⟩ := List.forall_mem_cons.1 hR
    exact List.forall_mem_cons.2 ⟨hnow _ _ _ _ now, ih hlater⟩
  | failed now => exact List.forall_mem_singleton.2 (hR _ List.mem_cons_self _ _ _ _ now)

/-- **One call** is a course. -/
theorem Call.Made.course {c : Call σ} {b b' : Bench σ Cfg} {e : Event σ} {r : Except Error Bool}
    (h : c.Made b e r b') : Course b [e] r b' := by
  obtain ⟨rfl, rfl, rfl, rfl⟩ := h
  exact .single e

/-- **The calls of a pass** are a course. -/
theorem course_of_calls {cs : List (Call σ)} {b b' : Bench σ Cfg} {events : List (Event σ)}
    {r : Except Error Bool} (h : InRow Call.Made cs b events r b') : Course b events r b' := by
  have hcourse := h.course (f := fun e => [e]) fun _ _ _ _ _ => Call.Made.course
  rwa [List.flatMap_singleton'] at hcourse

/-- **A step** is a course. -/
theorem Stepped.course {config : Config} {p : Pass σ} {b b' : Bench σ Cfg} {events : List (Event σ)}
    {r : Except Error Bool} (h : Stepped config p b events r b') : Course b events r b' := by
  cases h with
  | ok calls => exact (course_of_calls calls).of_note.note _
  | failed calls => exact (course_of_calls calls).of_note

/-- **A round** is a course. -/
theorem RoundMade.course {p : Pipeline σ} {b b' : Bench σ Cfg} {round : List (List (Event σ))}
    {r : Except Error Bool} (h : RoundMade p b round r b') : Course b round.flatten r b' := by
  rw [← List.flatMap_id]
  exact InRow.course (fun _ _ _ _ _ => Stepped.course) h

/-- **A run** is a course. -/
theorem Rounds.course {p : Pipeline σ} {done more : Nat} {b b' : Bench σ Cfg}
    {history : List (List (List (Event σ)))} {r : Except Error Bool}
    (h : Rounds p done more b history r b') : Course b history.flatten.flatten r b' := by
  induction h with
  | out done b => exact .nil b
  | again now _ ih =>
    rw [List.flatten_cons, List.flatten_append]
    exact (RoundMade.course now).append ih
  | stable now =>
    rw [List.flatten_singleton]
    exact (RoundMade.course now).note _
  | failed now =>
    rw [List.flatten_singleton]
    exact RoundMade.course now

/-! ### Blocks -/

/-- A call on a block is given the block of its node, and what comes back is put in its place. -/
def Event.GivenBlock (e : Event σ) : Prop :=
  ∀ edit v, e.call = .block edit v → ∃ block after, e.before.subject.blockAt? v = some block ∧
    edit.on { e.before with subject := block } = (e.outcome, after) ∧
    e.after = { after with
      subject := e.before.subject.modifyNode v fun n => { n with block := some after.subject } }

/-- Only the calls in the row are made. -/
theorem InRow.call_mem {cs : List (Call σ)} {b b' : Bench σ Cfg} {events : List (Event σ)}
    {r : Except Error Bool} (h : InRow Call.Made cs b events r b') : ∀ e ∈ events, e.call ∈ cs :=
  h.forall_mem fun _ hc _ _ _ _ hmade => hmade.call ▸ hc

/-- **In one pass** every call is given its block. -/
theorem givenBlock_of_calls {p : Pass σ} {g : Cfg} {b b' : Bench σ Cfg} {events : List (Event σ)}
    {r : Except Error Bool} (h : InRow Call.Made (p.calls g) b events r b') (hg : b.subject = g) :
    ∀ e ∈ events, e.GivenBlock := by
  subst hg
  rw [Pass.calls] at h
  intro e he edit v hcall
  cases hwork : p.work with
  | graph edit' =>
    rw [hwork] at h
    cases hcall.symm.trans (List.mem_singleton.1 (h.call_mem e he))
  | block edit' =>
    rw [hwork] at h
    have hstored : ∀ c ∈ b.subject.storedIds.map (Call.block edit'), ∃ edit v,
        c = .block edit v ∧ (b.subject.blockAt? v).isSome := by
      intro c hc
      obtain ⟨w, hw, rfl⟩ := List.mem_map.1 hc
      exact ⟨edit', w, rfl, (List.mem_filter.1 hw).2⟩
    obtain ⟨edit'', w, hcall', hw⟩ := h.blocks_at_hand hstored e he
    obtain ⟨rfl, rfl⟩ := Call.block.inj (hcall.symm.trans hcall')
    exact e.given_block hcall hw

/-- In a step, too. -/
theorem Stepped.givenBlock {config : Config} {p : Pass σ} {b b' : Bench σ Cfg}
    {events : List (Event σ)} {r : Except Error Bool} (h : Stepped config p b events r b') :
    ∀ e ∈ events, e.GivenBlock := by
  cases h with
  | ok calls => exact givenBlock_of_calls calls rfl
  | failed calls => exact givenBlock_of_calls calls rfl

/-- In a round, too. -/
theorem RoundMade.givenBlock {p : Pipeline σ} {b b' : Bench σ Cfg} {round : List (List (Event σ))}
    {r : Except Error Bool} (h : RoundMade p b round r b') : ∀ e ∈ round.flatten, e.GivenBlock := by
  have hall : ∀ events ∈ round, ∀ e ∈ events, e.GivenBlock :=
    InRow.forall_mem (P := fun events => ∀ e ∈ events, e.GivenBlock)
      (fun _ _ _ _ _ _ => Stepped.givenBlock) h
  intro e he
  obtain ⟨events, hevents, he⟩ := List.mem_flatten.1 he
  exact hall events hevents e he

/-- **In a run**, too. -/
theorem Rounds.givenBlock {p : Pipeline σ} {done more : Nat} {b b' : Bench σ Cfg}
    {history : List (List (List (Event σ)))} {r : Except Error Bool}
    (h : Rounds p done more b history r b') : ∀ e ∈ history.flatten.flatten, e.GivenBlock := by
  induction h with
  | out done b => exact fun e he => absurd he List.not_mem_nil
  | again now _ ih =>
    rw [List.flatten_cons, List.flatten_append]
    exact List.forall_mem_append.2 ⟨RoundMade.givenBlock now, ih⟩
  | stable now =>
    rw [List.flatten_singleton]
    exact RoundMade.givenBlock now
  | failed now =>
    rw [List.flatten_singleton]
    exact RoundMade.givenBlock now

/-! ### Stopping -/

/-- **Stops.** Rounds go on as long as there are any left and something changes. -/
structure Stops (more : Nat) (history : List (List (List (Event σ)))) (r : Except Error Bool) :
    Prop where
  length_le : history.length ≤ more
  /-- something changed in every round but the last -/
  goes_on : ∀ round ∈ history.dropLast, ∃ e ∈ round.flatten, e.outcome = .ok true
  /-- rounds that are left and not run follow one without changes -/
  stable : ∀ changed, r = .ok changed → history.length < more → ∃ round,
    history.getLast? = some round ∧ ∀ e ∈ round.flatten, e.outcome = .ok false

/-- **A run stops** as soon as nothing changes. -/
theorem Rounds.stops {p : Pipeline σ} {done more : Nat} {b b' : Bench σ Cfg}
    {history : List (List (List (Event σ)))} {r : Except Error Bool}
    (h : Rounds p done more b history r b') : Stops more history r := by
  induction h with
  | out done b =>
    exact ⟨Nat.le_refl 0, fun round h => absurd h List.not_mem_nil,
      fun changed _ h => absurd h (Nat.lt_irrefl 0)⟩
  | @again done more b b₁ b₂ round history r now _ ih =>
    have hchanged := ((RoundMade.course now).ok true rfl).2.1 rfl
    refine ⟨Nat.succ_le_succ ih.length_le, fun other hother => ?_, fun changed hr hlt => ?_⟩
    · cases history with
      | nil => exact absurd hother List.not_mem_nil
      | cons next history =>
        rcases List.mem_cons.1 hother with rfl | hother
        · exact hchanged
        · exact ih.goes_on other hother
    · obtain ⟨later, rfl, -⟩ := ok_of_map hr
      obtain ⟨last, hlast, hsame⟩ := ih.stable later rfl (Nat.lt_of_succ_lt_succ hlt)
      exact ⟨last, by rw [List.getLast?_cons, hlast, Option.getD_some], hsame⟩
  | @stable done more b b₁ round now =>
    obtain ⟨hok, hchanged⟩ := (RoundMade.course now).ok false rfl
    refine ⟨Nat.succ_le_succ (Nat.zero_le more), fun other h => absurd h List.not_mem_nil,
      fun changed _ _ => ⟨round, rfl, fun e he => ?_⟩⟩
    obtain ⟨c, hc⟩ := hok e he
    cases c with
    | false => exact hc
    | true => cases hchanged.2 ⟨e, he, hc⟩
  | @failed done more b b₁ round e now =>
    exact ⟨Nat.succ_le_succ (Nat.zero_le more), fun other h => absurd h List.not_mem_nil,
      fun changed h => nomatch h⟩

end FlowText
