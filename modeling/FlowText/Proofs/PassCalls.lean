import FlowText.Pipeline
import FlowText.Proofs.Edits
import FlowText.Proofs.Links

/-!
# The calls of a pass

A pass on graphs is called once; a pass on blocks is called for the block of each node that has one,
in the natural order of the addresses of the nodes (`Pass.calls`, `storedIds_map_addrAt`). A call on
a block leaves all other blocks, so that the calls of a pass are known before the first one is made,
and to run the pass is to make these calls in a row (`Pass.on_run_iff`). Every call on a block is
given the block of its node (`InRow.blocks_at_hand`).
-/

namespace FlowText

variable {σ : Type}

namespace Cfg

/-- The block of a node. -/
def blockAt? (g : Cfg) (v : NodeId) : Option Block := (g.nodeAt? v).bind Node.block

/-- The nodes that have a block, in the natural order of their addresses. -/
def storedIds (g : Cfg) : List NodeId := g.sortedIds.filter fun v => (g.blockAt? v).isSome

/-- The addresses of the nodes that have a block are in natural order. -/
theorem storedIds_map_addrAt (g : Cfg) :
    g.storedIds.map g.addrAt = g.sortedAddrs.filter fun addr => (g.block? addr).isSome := by
  rw [sortedAddrs, List.filter_map, storedIds]
  refine congrArg _ (List.filter_congr fun v hv => ?_)
  rw [Function.comp_apply, block?, node?_addrAt (lt_of_mem_sortedIds hv), blockAt?]

/-- A node keeps a block that is changed, and all others keep theirs. -/
theorem isSome_blockAt?_modifyNode {g : Cfg} {v : NodeId}
    (h : (g.blockAt? v).isSome) (block : Block) (w : NodeId) :
    ((g.modifyNode v fun n => { n with block := some block }).blockAt? w).isSome =
      (g.blockAt? w).isSome := by
  rw [blockAt?, blockAt?, nodeAt?_eq, nodeAt?_eq, nodes_modifyNode_eq_modify, List.getElem?_modify]
  by_cases hw : v.index = w.index
  · obtain rfl : v = w := congrArg NodeId.mk hw
    rw [blockAt?, nodeAt?_eq] at h
    cases hn : g.nodes[v.index]? with
    | none =>
      rw [hn] at h
      cases h
    | some n =>
      rw [hn] at h
      simpa using h.symm
  · cases g.nodes[w.index]? <;> simp [hw]

end Cfg

namespace Edit

variable {work : Edit σ Block Bool} {v : NodeId} {b : Bench σ Cfg}

theorem on_atNode_of_none (h : b.subject.blockAt? v = none) :
    (atNode work v).on b = (.ok false, b) := by
  change atNode work v b = _
  rw [atNode]
  split
  · rfl
  · next block hb => cases hb.symm.trans h

theorem on_atNode_of_some {block : Block} (h : b.subject.blockAt? v = some block) :
    (atNode work v).on b = ((work.on { b with subject := block }).1,
      { (work.on { b with subject := block }).2 with
        subject := b.subject.modifyNode v fun n =>
          { n with block := some (work.on { b with subject := block }).2.subject } }) := by
  change atNode work v b = _
  rw [atNode]
  split
  · next hb => cases hb.symm.trans h
  · next c hc =>
    obtain rfl := Option.some.inj (hc.symm.trans h)
    rfl

/-- Work on a block leaves which nodes have one. -/
theorem isSome_blockAt?_atNode {r : Except Error Bool} {b' : Bench σ Cfg}
    (h : (atNode work v).on b = (r, b')) (w : NodeId) :
    (b'.subject.blockAt? w).isSome = (b.subject.blockAt? w).isSome := by
  cases hv : b.subject.blockAt? v with
  | none =>
    rw [on_atNode_of_none hv] at h
    cases h
    rfl
  | some block =>
    rw [on_atNode_of_some hv] at h
    cases h
    exact Cfg.isSome_blockAt?_modifyNode (by rw [hv]; rfl) _ w

/-- Nodes that have no block at the start are passed over, whatever is done before their turn. -/
theorem on_anyChange_atNode (work : Edit σ Block Bool) (vs : List NodeId) (b : Bench σ Cfg) :
    (anyChange vs (atNode work)).on b =
      (anyChange (vs.filter fun v => (b.subject.blockAt? v).isSome) (atNode work)).on b := by
  induction vs generalizing b with
  | nil => rfl
  | cons v vs ih =>
    rw [on_anyChange_cons, List.filter_cons]
    cases hv : b.subject.blockAt? v with
    | none =>
      rw [on_atNode_of_none hv, if_neg (by simp), ← ih]
      dsimp only
      cases h : (anyChange vs (atNode work)).on b with
      | mk r b' => cases r <;> simp [Except.map]
    | some block =>
      rw [if_pos (by rfl), on_anyChange_cons]
      cases h : (atNode work v).on b with
      | mk r b₁ =>
        cases r with
        | error e => rfl
        | ok changed =>
          have hstay := isSome_blockAt?_atNode h
          dsimp only
          rw [ih b₁, List.filter_congr fun w _ => hstay w]

end Edit

/-! ### Calls -/

/-- **Call.** A pass is called on the graph, or on the block of a node. -/
inductive Call (σ : Type) where
  | graph (edit : Edit σ Cfg Bool)
  | block (edit : Edit σ Block Bool) (v : NodeId)

/-- What a call does to the graph. -/
def Call.edit : Call σ → Edit σ Cfg Bool
  | graph edit => edit
  | block edit v => edit.atNode v

/-- **Calls.** The calls that a pass makes on a graph: one on the graph, or one on each block. -/
def Pass.calls (p : Pass σ) (g : Cfg) : List (Call σ) :=
  match p.work with
  | .graph edit => [.graph edit]
  | .block edit => g.storedIds.map (.block edit)

/-- A call that was made, with what was at hand before and afterwards. -/
structure Event (σ : Type) where
  call : Call σ
  before : Bench σ Cfg
  outcome : Except Error Bool
  after : Bench σ Cfg
  /-- the call did this -/
  made : call.edit.on before = (outcome, after)

/-- The event is that of the call. -/
structure Call.Made (c : Call σ) (b : Bench σ Cfg) (e : Event σ) (r : Except Error Bool)
    (b' : Bench σ Cfg) : Prop where
  call : e.call = c
  before : e.before = b
  outcome : e.outcome = r
  after : e.after = b'

theorem Call.on_edit_iff {c : Call σ} {b : Bench σ Cfg} {r : Except Error Bool} {b' : Bench σ Cfg} :
    c.edit.on b = (r, b') ↔ ∃ e, c.Made b e r b' := by
  constructor
  · intro h
    exact ⟨⟨c, b, r, b', h⟩, rfl, rfl, rfl, rfl⟩
  · rintro ⟨e, rfl, rfl, rfl, rfl⟩
    exact e.made

theorem Pass.on_run (p : Pass σ) (b : Bench σ Cfg) :
    p.run.on b = (Edit.anyChange (p.calls b.subject) Call.edit).on b := by
  rw [run, calls]
  cases p.work with
  | graph edit =>
    dsimp only
    cases h : edit.on b with
    | mk r b' =>
      have hcall : (Call.graph edit).edit.on b = (r, b') := h
      rw [Edit.on_anyChange_cons, hcall]
      cases r <;> simp [Edit.on_anyChange_nil, Except.map]
  | block edit =>
    have hcalls : Edit.anyChange (b.subject.storedIds.map (.block edit)) Call.edit =
        Edit.anyChange b.subject.storedIds edit.atNode := by
      rw [Edit.anyChange, List.foldlM_map]
      rfl
    dsimp only
    rw [hcalls, Edit.eachBlock, Edit.on_bind_of_ok (Edit.on_subject b), Edit.on_anyChange_atNode]
    rfl

/-- **Running a pass** is making its calls in a row. -/
theorem Pass.on_run_iff {p : Pass σ} {b : Bench σ Cfg} {r : Except Error Bool} {b' : Bench σ Cfg} :
    p.run.on b = (r, b') ↔ ∃ events, InRow Call.Made (p.calls b.subject) b events r b' := by
  rw [on_run]
  exact Edit.on_anyChange_iff fun _ _ _ _ => Call.on_edit_iff

/-- Calls on blocks leave which nodes have one, so each is given the block of its node. -/
theorem InRow.blocks_at_hand {cs : List (Call σ)} {b b' : Bench σ Cfg} {events : List (Event σ)}
    {r : Except Error Bool} (h : InRow Call.Made cs b events r b')
    (hcs : ∀ c ∈ cs, ∃ edit v, c = .block edit v ∧ (b.subject.blockAt? v).isSome) :
    ∀ e ∈ events, ∃ edit v, e.call = .block edit v ∧ (e.before.subject.blockAt? v).isSome := by
  induction h with
  | done b => exact fun e he => absurd he List.not_mem_nil
  | @next i is b b₁ b₂ e es changed r now later ih =>
    obtain ⟨rfl, rfl, hok, rfl⟩ := now
    obtain ⟨edit, v, hcall, hv⟩ := hcs _ List.mem_cons_self
    have hmade := e.made
    rw [hcall] at hmade
    have hstay := Edit.isSome_blockAt?_atNode hmade
    refine List.forall_mem_cons.2 ⟨⟨edit, v, hcall, hv⟩, ih fun c hc => ?_⟩
    obtain ⟨edit', w, rfl, hw⟩ := hcs c (List.mem_cons_of_mem _ hc)
    exact ⟨edit', w, rfl, (hstay w).trans hw⟩
  | failed now =>
    obtain ⟨rfl, rfl, -, rfl⟩ := now
    exact List.forall_mem_singleton.2 (hcs _ List.mem_cons_self)

/-- **A call on a block** gives the block of the node to the pass and puts what comes back in its
place, also when the pass fails. -/
theorem Event.given_block {e : Event σ} {edit : Edit σ Block Bool} {v : NodeId}
    (hcall : e.call = .block edit v) (h : (e.before.subject.blockAt? v).isSome) :
    ∃ block after, e.before.subject.blockAt? v = some block ∧
      edit.on { e.before with subject := block } = (e.outcome, after) ∧
      e.after = { after with
        subject :=
          e.before.subject.modifyNode v fun n => { n with block := some after.subject } } := by
  obtain ⟨block, hblock⟩ := Option.isSome_iff_exists.1 h
  have hmade := e.made
  rw [hcall] at hmade
  obtain ⟨houtcome, hafter⟩ := Prod.mk.inj ((Edit.on_atNode_of_some hblock).symm.trans hmade)
  refine ⟨block, (edit.on { e.before with subject := block }).2, hblock, ?_, hafter.symm⟩
  rw [← houtcome]

end FlowText
