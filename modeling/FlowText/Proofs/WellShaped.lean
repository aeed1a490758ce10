import FlowText.Proofs.Showing

/-!
# Well-shaped instructions

An instruction has a canonical form if and only if each stage of its history keeps the shape rules,
and otherwise the first stage that breaks one, from the latest back, decides the error
(`Inst.canonical_failsAs`). The rules are strict enough: the text of an operation that keeps them
asks for no argument that is not there, and for no missing destination
(`Operation.textByPlace?_of_form`).

So a dump in canonical form exists if and only if this holds of all instructions that are not left
out (`canonical_iff_well_shaped`). The diagnostic form exists for whatever instructions there are.
-/

namespace FlowText

/-! ### Operations -/

namespace Operation

/-- **Text by place.** The canonical form of an operation whose shape nobody has looked at:
arguments are taken by their places. There is no text if one of them, or a destination that is
needed, is not there. -/
def textByPlace? (o : Operation) : Option String :=
  match o.op with
  | .literal => o.args[0]?.map Arg.text
  | .ret => some "return"
  | .goto | .call => o.args[0]?.map fun a => o.op.tag ++ " " ++ a.text
  | .assign => do
    let d ← o.dest
    let a ← o.args[0]?
    return d.text ++ " = " ++ a.text
  | .binary op => do
    let d ← o.dest
    let a ← o.args[0]?
    let b ← o.args[1]?
    return if Form.updates d a then d.text ++ " " ++ op.symbol ++ "= " ++ b.text
      else d.text ++ " = " ++ a.text ++ " " ++ op.symbol ++ " " ++ b.text
  | .synthetic => o.args[0]?.map fun f => Form.destText o.dest ++ f.text ++
      "(" ++ ", ".intercalate ((o.args.drop 1).map Arg.text) ++ ")"
  | .named name => some (Form.destText o.dest ++ name ++
      "(" ++ ", ".intercalate (o.args.map Arg.text) ++ ")")

/-- **The rules cover the places.** The text of a form is that of its operation, taken by place. -/
theorem textByPlace?_of_form {o : Operation} {form : Form} (h : o.form = .ok form) :
    o.textByPlace? = some form.text := by
  obtain ⟨dest, op, args, addr, notes⟩ := o
  rw [Operation.form] at h
  dsimp only at h
  -- one case for each well-shaped form: its destination and its arguments stand in their places
  split at h <;> cases h <;> rfl

theorem validate_eq_ok_iff {o : Operation} : o.validate = .ok () ↔ ∃ form, o.form = .ok form := by
  rw [validate]
  cases o.form with
  | ok form => exact iff_of_true rfl ⟨form, rfl⟩
  | error d => exact iff_of_false nofun nofun

theorem validate_eq_error_iff {o : Operation} {e : Error} :
    o.validate = .error e ↔ ∃ d, o.form = .error d ∧ e = .malformed d := by
  rw [validate]
  cases o.form with
  | ok form => exact iff_of_false nofun nofun
  | error d => simp [Except.map, Except.mapError, eq_comm]

end Operation

/-! ### Instructions -/

/-- The canonical form of an operation with a history, which is put together stage by stage. -/
def Operation.staged (o : Operation) : (origins : List Operation) → Except Error String
  | [] => (o.form.mapError .malformed).map Form.text
  | p :: ps => (o.form.mapError .malformed).bind fun form =>
      (p.staged ps).map fun earlier => Dump.originMark ++ earlier ++ "\n" ++ form.text

/-- The induction is on the history, of which the latest stage is written last. -/
theorem yields_operation (o : Operation) (os : List Operation) :
    Emit.Yields (o.write os) (o.staged os) := by
  induction os generalizing o with
  | nil =>
    have hw := Emit.Yields.lift_bind (x := o.form.mapError Error.malformed) fun form =>
      Emit.yields_emit form.text
    refine hw.congr ?_
    rw [Operation.staged]
    cases o.form <;> rfl
  | cons p ps ih =>
    have hw := Emit.Yields.lift_bind (x := o.form.mapError Error.malformed) fun form =>
      (Emit.yields_emit "// ").seq ((ih p).seq
        ((Emit.yields_emit "\n").seq (Emit.yields_emit form.text)))
    refine hw.congr ?_
    rw [Operation.staged]
    cases o.form with
    | error d => rfl
    | ok form =>
      cases p.staged ps with
      | error e => rfl
      | ok earlier =>
        simp [Except.bind, Except.map, Except.mapError, Dump.originMark, String.append_assoc]

namespace Inst

/-- The operation and the earlier stages, the latest first. -/
def stages (i : Inst) : List Operation := i.toOperation :: i.origins

theorem canonical_eq_staged (i : Inst) : i.canonical = i.toOperation.staged i.origins :=
  Emit.text_of_yields (yields_operation _ _)

/-- **Stages.** The latest stage that breaks a shape rule decides the error. The induction is on the
history. -/
theorem canonical_failsAs (i : Inst) : FailsAs i.canonical Operation.validate i.stages := by
  obtain ⟨o, os⟩ := i
  rw [canonical_eq_staged]
  change discard (o.staged os) = forM (o :: os) fun p => discard p.validate
  induction os generalizing o with
  | nil =>
    rw [Operation.staged, List.forM_cons, List.forM_nil, Operation.validate]
    cases o.form <;> rfl
  | cons p ps ih =>
    rw [Operation.staged, List.forM_cons, ← ih, Operation.validate]
    cases o.form with
    | error d => rfl
    | ok form => cases p.staged ps <;> rfl

/-- The text of an instruction is that of what it was made from, as a comment, and its own text. -/
theorem exists_of_canonical {i : Inst} {t : String} (h : i.canonical = .ok t) :
    ∃ body, canonical { i with origins := [] } = .ok body ∧ i.textByPlace? = some body ∧
      match i.origin? with
      | none => t = body
      | some p => ∃ earlier, p.canonical = .ok earlier ∧
      t = Dump.originMark ++ earlier ++ "\n" ++ body := by
  obtain ⟨o, os⟩ := i
  obtain ⟨u, hu⟩ := (canonical_failsAs ⟨o, os⟩).exists_ok_iff.1 ⟨t, h⟩ o List.mem_cons_self
  obtain ⟨form, hform⟩ := Operation.validate_eq_ok_iff.1 hu
  have hbody : canonical ⟨o, []⟩ = .ok form.text := by
    rw [canonical_eq_staged, Operation.staged, hform]
    rfl
  refine ⟨form.text, hbody, Operation.textByPlace?_of_form hform, ?_⟩
  cases os with
  | nil => exact Except.ok.inj (h.symm.trans hbody)
  | cons p ps =>
    rw [canonical_eq_staged, Operation.staged, hform] at h
    obtain ⟨earlier, hearlier, rfl⟩ := ok_of_map h
    exact ⟨earlier, (canonical_eq_staged ⟨p, ps⟩).trans hearlier, rfl⟩

end Inst

/-! ### Layouts -/

namespace Layout

theorem render_canonical {omitDead : Bool} {i : Inst} (h : (!(omitDead && i.isDead)) = true) :
    render ⟨.canonical, omitDead⟩ i = i.canonical.map some := by
  rw [Bool.not_eq_true'] at h
  rw [render, h]
  rfl

theorem render_hidden (style : Style) {omitDead : Bool} {i : Inst}
    (h : (!(omitDead && i.isDead)) = false) : render ⟨style, omitDead⟩ i = .ok none := by
  rw [Bool.not_eq_false'] at h
  rw [render, h]
  rfl

/-- The diagnostic form exists for every instruction. -/
theorem exists_render_diagnostic (omitDead : Bool) (i : Inst) :
    ∃ shown, render ⟨.diagnostic, omitDead⟩ i = .ok shown := by
  rw [render]
  split
  · exact ⟨none, rfl⟩
  · exact ⟨some i.inspect, rfl⟩

end Layout

namespace View

/-- The instructions that a layout does not leave out, in the order in which they are dumped. -/
def visible (v : View) (omitDead : Bool) : List Inst :=
  v.insts.filter fun i => !(omitDead && i.isDead)

/-- **Dumps.** The first visible instruction without a canonical form decides the error. -/
theorem dump_failsAs_canonical (v : View) (omitDead : Bool) :
    FailsAs (v.dump (Layout.render ⟨.canonical, omitDead⟩)) Inst.canonical
      (v.visible omitDead) := by
  refine (v.dump_failsAs _).filter (fun i hi => ?_) fun i hi => ⟨none, Layout.render_hidden _ hi⟩
  rw [Layout.render_canonical hi]
  cases i.canonical <;> rfl

end View

/-- **Canonical forms.** An instruction has a canonical form if and only if every stage of its
history keeps the shape rules. Otherwise it is refused because of the latest stage that breaks one.
If there is a canonical form, no stage lacks an argument or a destination that its text asks for,
and the form consists of that of what the instruction was made from, as a comment, and of its own
text without a history.

The canonical dump of a graph exists if and only if all instructions that are not left out have a
canonical form; otherwise the first of them that has none, in the natural order of the addresses and
then in the order of its block, decides the error. A diagnostic dump always exists. -/
theorem canonical_iff_well_shaped :
    (∀ i : Inst,
      ((∃ t, i.canonical = .ok t) ↔ ∀ o ∈ i.stages, o.validate = .ok ()) ∧
      (∀ e, i.canonical = .error e ↔ ∃ later o earlier d, i.stages = later ++ o :: earlier ∧
        (∀ p ∈ later, p.validate = .ok ()) ∧ o.validate = .error (.malformed d) ∧
        e = .malformed d) ∧
      ∀ t, i.canonical = .ok t → (∀ o ∈ i.stages, o.textByPlace?.isSome = true) ∧
        ∃ body, Inst.canonical { i with origins := [] } = .ok body ∧ i.textByPlace? = some body ∧
          match i.origin? with
          | none => t = body
          | some p => ∃ earlier, p.canonical = .ok earlier ∧ t = "// " ++ earlier ++ "\n" ++ body) ∧
    ∀ (g : Cfg) (omitDead : Bool),
      ((∃ t, g.view.dump (Layout.render ⟨.canonical, omitDead⟩) = .ok t) ↔
        ∀ i ∈ g.view.visible omitDead, ∃ t, i.canonical = .ok t) ∧
      (∀ e, g.view.dump (Layout.render ⟨.canonical, omitDead⟩) = .error e ↔
        ∃ before i after, g.view.visible omitDead = before ++ i :: after ∧
          (∀ j ∈ before, ∃ t, j.canonical = .ok t) ∧ i.canonical = .error e) ∧
      ∃ t, g.view.dump (Layout.render ⟨.diagnostic, omitDead⟩) = .ok t := by
  refine ⟨fun i => ⟨?_, fun e => ?_, fun t ht => ⟨fun o ho => ?_, Inst.exists_of_canonical ht⟩⟩,
    fun g omitDead => ⟨(g.view.dump_failsAs_canonical omitDead).exists_ok_iff,
      fun e => (g.view.dump_failsAs_canonical omitDead).error_iff,
      (g.view.dump_failsAs _).exists_ok fun i _ => Layout.exists_render_diagnostic omitDead i⟩⟩
  · rw [i.canonical_failsAs.exists_ok_iff]
    exact forall₂_congr fun o _ => ⟨fun ⟨_, h⟩ => h, fun h => ⟨(), h⟩⟩
  · rw [i.canonical_failsAs.error_iff]
    constructor
    · rintro ⟨later, o, earlier, hl, hlater, he⟩
      obtain ⟨d, hd, rfl⟩ := Operation.validate_eq_error_iff.1 he
      exact ⟨later, o, earlier, d, hl, fun p hp => (hlater p hp).elim fun _ h => h, he, rfl⟩
    · rintro ⟨later, o, earlier, d, hl, hlater, he, rfl⟩
      exact ⟨later, o, earlier, hl, fun p hp => ⟨(), hlater p hp⟩, he⟩
  · obtain ⟨u, hu⟩ := i.canonical_failsAs.exists_ok_iff.1 ⟨t, ht⟩ o ho
    obtain ⟨form, hform⟩ := Operation.validate_eq_ok_iff.1 hu
    rw [Operation.textByPlace?_of_form hform]
    rfl

/-- A copy that was made from a call. -/
def copyOfCall : Inst := (Inst.assign (.reg "r1") (.reg "r0")).setOrigin (.call (.addr "f"))

/-- Both of its stages have all that their texts ask for. -/
theorem copy_of_call_shown : copyOfCall.canonical = .ok "// call f\n$r1 = $r0" ∧
    ∀ o ∈ copyOfCall.stages, o.textByPlace?.isSome = true := by
  have htext : copyOfCall.canonical = .ok "// call f\n$r1 = $r0" := by decide
  exact ⟨htext, ((canonical_iff_well_shaped.1 copyOfCall).2.2 _ htext).1⟩

end FlowText
