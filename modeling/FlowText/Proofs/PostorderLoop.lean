import FlowText.Proofs.Reachable

/-!
# Postorder by a loop and by a recursive procedure

The recursive procedure marks an item, calls itself for what the item leads to and is not marked
yet, and emits the item (`Emits`). The loop keeps what is left to do on a stack, where an item may
stay that is marked before its turn comes (`Digraph.turn`).

What the procedure does for a list of items, the loop does for a stack that starts with them,
whichever of the marked ones are left out there (`Digraph.turns_of_emits`). The induction is on the
procedure, and the rest of the stack is arbitrary. So the loop ends with what the procedure emits,
and this is the postorder (`Digraph.postorder_is_recursive`).
-/

namespace FlowText

/-! ### The procedure -/

section Procedure

variable {α : Type} {next : α → List α}

/-- **Emits.** The procedure is called for those items of a list that are not marked when their turn
comes: it marks the item, is called in the same way for what the item leads to, and emits the item.
`marked'` is what is marked in the end, and `out` what was emitted. -/
inductive Emits (next : α → List α) : (marked items marked' out : List α) → Prop where
  | done (marked : List α) : Emits next marked [] marked []
  | marked {marked vs marked' out : List α} {v : α} (hv : v ∈ marked)
    (later : Emits next marked vs marked' out) : Emits next marked (v :: vs) marked' out
  | visit {marked vs marked₁ marked₂ out₁ out₂ : List α} {v : α} (hv : v ∉ marked)
    (inner : Emits next (v :: marked) (next v) marked₁ out₁)
    (later : Emits next marked₁ vs marked₂ out₂) :
    Emits next marked (v :: vs) marked₂ (out₁ ++ v :: out₂)

namespace Emits

variable {vs marked marked' out : List α}

/-- What is marked stays marked. -/
theorem subset (h : Emits next marked vs marked' out) : marked ⊆ marked' := by
  induction h with
  | done marked => exact List.Subset.refl marked
  | marked _ _ ih => exact ih
  | visit _ _ _ ih₁ ih₂ => exact fun x hx => ih₂ (ih₁ (List.mem_cons_of_mem _ hx))

/-- The procedure leaves nothing open. -/
theorem unique {marked'' out' : List α} (h : Emits next marked vs marked' out)
    (h' : Emits next marked vs marked'' out') : marked'' = marked' ∧ out' = out := by
  induction h generalizing marked'' out' with
  | done marked =>
    cases h'
    exact ⟨rfl, rfl⟩
  | marked hv _ ih =>
    cases h' with
    | marked _ later => exact ih later
    | visit hv' => exact absurd hv hv'
  | visit hv _ _ ih₁ ih₂ =>
    cases h' with
    | marked hv' => exact absurd hv' hv
    | visit _ inner later =>
      obtain ⟨rfl, rfl⟩ := ih₁ inner
      obtain ⟨rfl, rfl⟩ := ih₂ later
      exact ⟨rfl, rfl⟩

end Emits

/-- **The procedure ends,** and it emits what the walk depth first lists, if the same items were
marked as seen. -/
theorem exists_emits [DecidableEq α] {all : List α} (hall : ∀ x ∈ all, ∀ y ∈ next x, y ∈ all)
    (seen vs : List α) : ∀ marked : List α, (∀ v ∈ vs, v ∈ all) → (∀ x, x ∈ marked ↔ x ∈ seen) →
      ∃ marked', Emits next marked vs marked' (depthFirst next all seen vs) ∧
        ∀ x, x ∈ marked' ↔ x ∈ depthFirst next all seen vs ++ seen := by
  fun_induction depthFirst next all seen vs with
  | case1 seen =>
    intro marked _ hmarked
    exact ⟨marked, .done marked, hmarked⟩
  | case2 seen v vs hv _ inner _ ih₁ ih₂ =>
    intro marked hvs hmarked
    have hcons : ∀ x, x ∈ v :: marked ↔ x ∈ v :: seen := by
      intro x
      rw [List.mem_cons, List.mem_cons, hmarked]
    obtain ⟨marked₁, hinner, hmarked₁⟩ := ih₁ (v :: marked) (hall v hv.1) hcons
    obtain ⟨marked₂, hlater, hmarked₂⟩ :=
      ih₂ marked₁ (fun w hw => hvs w (List.mem_cons_of_mem v hw)) hmarked₁
    refine ⟨marked₂, .visit (mt (hmarked v).1 hv.2) hinner hlater, fun x => ?_⟩
    rw [hmarked₂]
    simp only [List.mem_append, List.mem_cons]
    tauto
  | case3 seen v vs hv ih =>
    intro marked hvs hmarked
    obtain ⟨hvall, hvs⟩ := List.forall_mem_cons.1 hvs
    obtain ⟨marked', hlater, hmarked'⟩ := ih marked hvs hmarked
    have hseen : v ∈ seen := by_contra fun h => hv ⟨hvall, h⟩
    exact ⟨marked', .marked ((hmarked v).2 hseen) hlater, hmarked'⟩

end Procedure

/-! ### The loop -/

variable {ν ε : Type}

namespace Digraph

/-- What the loop has at hand. -/
structure Loop where
  /-- the nodes that were entered -/
  seen : List NodeId := []
  /-- the nodes that were left, in order -/
  listed : List NodeId := []
  /-- what is left to do, the next first -/
  stack : List Visit

/-- **Turn.** What the loop does for the top of the stack. A node that was entered in the meantime
is dropped, and of the successors only those are put on the stack that were not entered. There is a
mark for nodes of the graph only, so the loop could not go on with another one. -/
def turn (g : Digraph ν ε) : Loop → Option Loop
  | ⟨_, _, []⟩ => none
  | ⟨seen, listed, .leave v :: stack⟩ => some ⟨seen, listed ++ [v], stack⟩
  | ⟨seen, listed, .enter v :: stack⟩ =>
    if v.index < g.nodeCount then
      if v ∈ seen then some ⟨seen, listed, stack⟩
      else
        let more := (g.successors v).filter (· ∉ v :: seen)
        some ⟨v :: seen, listed, more.map .enter ++ .leave v :: stack⟩
    else none

/-- The loop gets from one state to another by any number of turns. -/
abbrev Turns (g : Digraph ν ε) : Loop → Loop → Prop :=
  Relation.ReflTransGen fun s s' => g.turn s = some s'

variable {g : Digraph ν ε}

theorem turns_leave (seen listed : List NodeId) (v : NodeId) (stack : List Visit) :
    g.Turns ⟨seen, listed, .leave v :: stack⟩ ⟨seen, listed ++ [v], stack⟩ :=
  .single rfl

theorem turns_drop {seen : List NodeId} {v : NodeId} (hv : v.index < g.nodeCount) (hs : v ∈ seen)
    (listed : List NodeId) (stack : List Visit) :
    g.Turns ⟨seen, listed, .enter v :: stack⟩ ⟨seen, listed, stack⟩ :=
  .single (by rw [turn, if_pos hv, if_pos hs])

theorem turns_enter {seen : List NodeId} {v : NodeId} (hv : v.index < g.nodeCount) (hs : v ∉ seen)
    (listed : List NodeId) (stack : List Visit) :
    g.Turns ⟨seen, listed, .enter v :: stack⟩
      ⟨v :: seen, listed, ((g.successors v).filter (· ∉ v :: seen)).map .enter ++
        .leave v :: stack⟩ :=
  .single (by rw [turn, if_pos hv, if_neg hs])

/-- **The loop does what the procedure does.** Some of the nodes that are marked may be missing on
the stack: those that were marked when the stack was filled. -/
theorem turns_of_emits {marked vs marked' out : List NodeId}
    (h : Emits g.successors marked vs marked' out) (hvs : ∀ v ∈ vs, v.index < g.nodeCount)
    {missing : List NodeId} (hmissing : missing ⊆ marked) (listed : List NodeId)
    (stack : List Visit) : g.Turns ⟨marked, listed, (vs.filter (· ∉ missing)).map .enter ++ stack⟩
      ⟨marked', listed ++ out, stack⟩ := by
  induction h generalizing missing listed stack with
  | done marked =>
    rw [List.append_nil]
    exact .refl
  | @marked marked vs marked' out v hv _ ih =>
    obtain ⟨hlt, hvs⟩ := List.forall_mem_cons.1 hvs
    have hlater := ih hvs hmissing listed stack
    by_cases hm : v ∈ missing
    · rw [List.filter_cons_of_neg (by simpa using hm)]
      exact hlater
    · rw [List.filter_cons_of_pos (by simpa using hm)]
      exact (turns_drop hlt hv listed _).trans hlater
  | @visit marked vs marked₁ marked₂ out₁ out₂ v hv inner _ ih₁ ih₂ =>
    obtain ⟨hlt, hvs⟩ := List.forall_mem_cons.1 hvs
    have hm : v ∉ missing := fun hm => hv (hmissing hm)
    have hmarked : marked ⊆ marked₁ := fun x hx => inner.subset (List.mem_cons_of_mem v hx)
    let rest := (vs.filter (· ∉ missing)).map Visit.enter ++ stack
    have hinner :=
      ih₁ (fun w hw => lt_of_mem_successors hw) (List.Subset.refl _) listed (.leave v :: rest)
    have hlater := ih₂ hvs (List.Subset.trans hmissing hmarked) (listed ++ out₁ ++ [v]) stack
    have hout : listed ++ out₁ ++ [v] ++ out₂ = listed ++ (out₁ ++ v :: out₂) := by simp
    rw [hout] at hlater
    rw [List.filter_cons_of_pos (by simpa using hm)]
    exact (turns_enter hlt hv listed rest).trans
      (hinner.trans ((turns_leave marked₁ (listed ++ out₁) v rest).trans hlater))

/-- The loop makes its turns in one way only, so if it comes to an end it gets there from wherever
it is. -/
theorem turns_to_end {s t final : Loop} (hfinal : g.Turns s final) (hend : g.turn final = none)
    (ht : g.Turns s t) : g.Turns t final := by
  have hunique : Relator.RightUnique fun s s' : Loop => g.turn s = some s' := by
    intro s s' s'' h h'
    exact Option.some.inj (h.symm.trans h')
  rcases Relation.ReflTransGen.total_of_right_unique hunique hfinal ht with h | h
  · rcases Relation.ReflTransGen.cases_head h with rfl | ⟨s', hs', -⟩
    · exact .refl
    · cases hend.symm.trans hs'
  · exact h

/-- What is no node has an empty postorder. -/
theorem postorder_of_le {start : NodeId} (h : g.nodeCount ≤ start.index) :
    g.postorder start = [] := by
  rw [postorder, walk_skip fun hlt => Nat.not_lt.2 h hlt.1, walk_nil]

/-- What the procedure emits from a node on. -/
theorem exists_emits_postorder {start : NodeId} (h : start.index < g.nodeCount) :
    ∃ marked, Emits g.successors [] [start] marked (g.postorder start) := by
  have hstart : ∀ v ∈ [start], v ∈ g.nodeIds := List.forall_mem_singleton.2 (mem_nodeIds.2 h)
  obtain ⟨marked, hemits, -⟩ := exists_emits g.nodeIds_closed [] [start] [] hstart fun _ => Iff.rfl
  exact ⟨marked, g.postorder_eq_depthFirst start ▸ hemits⟩

/-- **Iterative and recursive postorder.** From a node on, the loop comes to its end wherever it is,
with an empty stack and the postorder listed, and the recursive procedure emits the postorder and
nothing else. The postorder holds exactly the nodes that can be reached, each once, and the node
itself last. What is no node has an empty postorder. -/
theorem postorder_is_recursive (g : Digraph ν ε) (start : NodeId) :
    (start.index < g.nodeCount →
      (∃ seen, ∀ s, g.Turns { stack := [.enter start] } s →
        g.Turns s ⟨seen, g.postorder start, []⟩) ∧
      (∃ marked, ∀ marked' out, Emits g.successors [] [start] marked' out ↔
        marked' = marked ∧ out = g.postorder start) ∧
      (∀ v, v ∈ g.postorder start ↔ Reachable g.successors start v) ∧
      (g.postorder start).Nodup ∧
      (g.postorder start).getLast? = some start) ∧
    (g.nodeCount ≤ start.index → g.postorder start = []) := by
  refine ⟨?_, postorder_of_le⟩
  intro h
  obtain ⟨marked, hemits⟩ := exists_emits_postorder h
  have hturns : g.Turns { stack := [.enter start] } ⟨marked, g.postorder start, []⟩ :=
    turns_of_emits hemits (List.forall_mem_singleton.2 h) (List.nil_subset []) [] []
  have hstart : start ∈ g.nodeIds := mem_nodeIds.2 h
  refine ⟨⟨marked, ?_⟩, ⟨marked, ?_⟩, ?_, ?_, ?_⟩
  · intro s hs
    exact turns_to_end hturns rfl hs
  · intro marked' out
    constructor
    · exact hemits.unique
    · rintro ⟨rfl, rfl⟩
      exact hemits
  · intro v
    rw [postorder_eq_depthFirst]
    exact mem_depthFirst_iff g.nodeIds_closed hstart
  · rw [postorder_eq_depthFirst]
    exact nodup_depthFirst [start]
  · rw [postorder_eq_depthFirst]
    exact getLast?_depthFirst hstart

/-- Nodes that lead in circles and to themselves, with a parallel edge, and one that is not
reached. -/
def knot : Digraph Unit Unit where
  nodes := #[(), (), (), ()]
  edges := #[⟨⟨0⟩, ⟨1⟩, ()⟩, ⟨⟨0⟩, ⟨2⟩, ()⟩, ⟨⟨1⟩, ⟨2⟩, ()⟩, ⟨⟨1⟩, ⟨0⟩, ()⟩,
    ⟨⟨2⟩, ⟨1⟩, ()⟩, ⟨⟨2⟩, ⟨2⟩, ()⟩, ⟨⟨0⟩, ⟨1⟩, ()⟩, ⟨⟨3⟩, ⟨0⟩, ()⟩]
  source_lt := by decide
  target_lt := by decide

/-- The procedure goes through the knot from node to node and comes back. -/
theorem knot_postorder :
    knot.postorder ⟨0⟩ = [⟨2⟩, ⟨1⟩, ⟨0⟩] ∧ ¬ Reachable knot.successors ⟨0⟩ ⟨3⟩ ∧
    knot.postorder ⟨4⟩ = [] := by
  obtain ⟨hnode, -⟩ := postorder_is_recursive knot ⟨0⟩
  obtain ⟨-, ⟨marked, hemits⟩, hreach, -⟩ := hnode (by decide)
  have hsecond : Emits knot.successors [⟨2⟩, ⟨1⟩, ⟨0⟩] [⟨1⟩, ⟨2⟩] [⟨2⟩, ⟨1⟩, ⟨0⟩] [] :=
    .marked (by decide) (.marked (by decide) (.done _))
  have hfirst : Emits knot.successors [⟨1⟩, ⟨0⟩] [⟨2⟩, ⟨0⟩] [⟨2⟩, ⟨1⟩, ⟨0⟩] [⟨2⟩] :=
    .visit (by decide) hsecond (.marked (by decide) (.done _))
  have hstart : Emits knot.successors [⟨0⟩] [⟨1⟩, ⟨2⟩, ⟨1⟩] [⟨2⟩, ⟨1⟩, ⟨0⟩] [⟨2⟩, ⟨1⟩] :=
    .visit (by decide) hfirst (.marked (by decide) (.marked (by decide) (.done _)))
  obtain ⟨-, hout⟩ := (hemits _ _).1 (.visit (by decide) hstart (.done _))
  refine ⟨hout.symm, ?_, (postorder_is_recursive knot ⟨4⟩).2 (by decide)⟩
  rw [← hreach, ← hout]
  decide

end Digraph

end FlowText
