import FlowText.Digraph.Postorder
import Mathlib.Data.List.Nodup

/-!
# Postorder by recursion

`depthFirst next all seen vs` lists what can be reached from `vs` without what was seen: each item
after what was reached from it first. It is the same walk as the one over a stack
(`Digraph.walk_enter_append`), and renaming the items renames the list (`map_depthFirst`).
-/

namespace FlowText

variable {α β : Type} [DecidableEq α] [DecidableEq β]

/-- The items that were not seen. -/
def fresh (all seen : List α) : List α := all.filter (· ∉ seen)

theorem mem_fresh {all seen : List α} {x : α} : x ∈ fresh all seen ↔ x ∈ all ∧ x ∉ seen := by
  simp [fresh]

/-- Seeing an item leaves fewer that were not seen. -/
theorem length_fresh_lt {all seen seen' : List α} {v : α} (hv : v ∈ all) (hs : v ∉ seen)
    (hv' : v ∈ seen') (hsub : seen ⊆ seen') :
    (fresh all seen').length < (fresh all seen).length := by
  have heq : fresh all seen' = (fresh all seen).filter (· ∉ seen') := by
    rw [fresh, fresh, List.filter_filter]
    refine List.filter_congr fun x _ => ?_
    by_cases hx : x ∈ seen
    · simp [hx, hsub hx]
    · simp [hx]
  rw [heq, List.length_filter_lt_length_iff_exists]
  exact ⟨v, mem_fresh.2 ⟨hv, hs⟩, by simpa using hv'⟩

/-- **Depth first.** Lists each item of `all` that can be reached and was not seen, behind what is
reached from it. What was listed has been seen. -/
def depthFirst (next : α → List α) (all seen : List α) : List α → List α
  | [] => []
  | v :: vs =>
    if h : v ∈ all ∧ v ∉ seen then
      have := length_fresh_lt h.1 h.2 List.mem_cons_self (List.subset_cons_self v seen)
      let inner := depthFirst next all (v :: seen) (next v)
      have := length_fresh_lt h.1 h.2 (List.mem_append_right inner List.mem_cons_self)
        (List.subset_append_of_subset_right inner (List.subset_cons_self v seen))
      inner ++ v :: depthFirst next all (inner ++ v :: seen) vs
    else depthFirst next all seen vs
termination_by vs => ((fresh all seen).length, vs.length)

variable {next : α → List α} {all seen : List α}

theorem depthFirst_nil : depthFirst next all seen [] = [] := by
  rw [depthFirst]

theorem depthFirst_enter {v : α} (h : v ∈ all ∧ v ∉ seen) (vs : List α) :
    depthFirst next all seen (v :: vs) =
      depthFirst next all (v :: seen) (next v) ++
        v :: depthFirst next all (depthFirst next all (v :: seen) (next v) ++ v :: seen) vs := by
  rw [depthFirst, dif_pos h]

theorem depthFirst_skip {v : α} (h : ¬ (v ∈ all ∧ v ∉ seen)) (vs : List α) :
    depthFirst next all seen (v :: vs) = depthFirst next all seen vs := by
  rw [depthFirst, dif_neg h]

/-- What is listed is one of all and was not seen. -/
theorem mem_depthFirst {vs : List α} {x : α} (h : x ∈ depthFirst next all seen vs) :
    x ∈ all ∧ x ∉ seen := by
  fun_induction depthFirst next all seen vs with
  | case1 => cases h
  | case2 seen v vs hv _ inner _ ih₁ ih₂ =>
    rcases List.mem_append.1 h with h | h
    · obtain ⟨hall, hseen⟩ := ih₁ h
      exact ⟨hall, fun hx => hseen (List.mem_cons_of_mem _ hx)⟩
    rcases List.mem_cons.1 h with rfl | h
    · exact hv
    · obtain ⟨hall, hseen⟩ := ih₂ h
      exact ⟨hall, fun hx => hseen (List.mem_append_right _ (List.mem_cons_of_mem _ hx))⟩
  | case3 seen v vs hv ih => exact ih h

/-- Nothing is listed twice. -/
theorem nodup_depthFirst (vs : List α) : (depthFirst next all seen vs).Nodup := by
  fun_induction depthFirst next all seen vs with
  | case1 => exact List.nodup_nil
  | case2 seen v vs hv _ inner _ ih₁ ih₂ =>
    refine List.nodup_append.2 ⟨ih₁, List.nodup_cons.2 ⟨fun h => ?_, ih₂⟩, ?_⟩
    · exact (mem_depthFirst h).2 (List.mem_append_right _ List.mem_cons_self)
    -- what is reached from the item has been seen before the rest is walked
    · rintro x hx y hy rfl
      rcases List.mem_cons.1 hy with rfl | hy
      · exact (mem_depthFirst hx).2 List.mem_cons_self
      · exact (mem_depthFirst hy).2 (List.mem_append_left _ hx)
  | case3 seen v vs hv ih => exact ih

/-- A walk asks of all items only which they are. -/
theorem depthFirst_congr {all' : List α} (h : ∀ v, v ∈ all ↔ v ∈ all') (vs : List α) :
    depthFirst next all seen vs = depthFirst next all' seen vs := by
  fun_induction depthFirst next all seen vs with
  | case1 => exact depthFirst_nil.symm
  | case2 seen v vs hv _ inner _ ih₁ ih₂ =>
    have hv' : v ∈ all' ∧ v ∉ seen := ⟨(h v).1 hv.1, hv.2⟩
    rw [depthFirst_enter hv', ← ih₁, ← ih₂]
  | case3 seen v vs hv ih =>
    have hv' : ¬ (v ∈ all' ∧ v ∉ seen) := by rwa [← h v]
    rw [depthFirst_skip hv', ih]

/-- The item that a walk starts at is listed last. -/
theorem getLast?_depthFirst {v : α} (hv : v ∈ all) :
    (depthFirst next all [] [v]).getLast? = some v := by
  rw [depthFirst_enter ⟨hv, List.not_mem_nil⟩, depthFirst_nil, List.getLast?_concat]

/-- **Renaming.** A walk follows names as it follows what they name, if no two of all have the same
name. -/
theorem map_depthFirst {f : α → β} {next' : β → List β}
    (hf : ∀ x ∈ all, ∀ y ∈ all, f x = f y → x = y)
    (hnext : ∀ x ∈ all, next' (f x) = (next x).map f) (hall : ∀ x ∈ all, ∀ y ∈ next x, y ∈ all)
    {vs : List α} (hvs : ∀ x ∈ vs, x ∈ all) (hseen : ∀ x ∈ seen, x ∈ all) :
    (depthFirst next all seen vs).map f =
      depthFirst next' (all.map f) (seen.map f) (vs.map f) := by
  have hmem : ∀ {l : List α}, (∀ x ∈ l, x ∈ all) → ∀ {v}, v ∈ all → (f v ∈ l.map f ↔ v ∈ l) := by
    intro l hl v hv
    refine ⟨fun h => ?_, List.mem_map_of_mem⟩
    obtain ⟨x, hx, he⟩ := List.mem_map.1 h
    exact hf x (hl x hx) v hv he ▸ hx
  fun_induction depthFirst next all seen vs with
  | case1 => exact depthFirst_nil.symm
  | case2 seen v vs hv _ inner _ ih₁ ih₂ =>
    have hv' : f v ∈ all.map f ∧ f v ∉ seen.map f :=
      ⟨List.mem_map_of_mem hv.1, mt (hmem hseen hv.1).1 hv.2⟩
    have hcons : ∀ x ∈ v :: seen, x ∈ all := List.forall_mem_cons.2 ⟨hv.1, hseen⟩
    have hinner := ih₁ (hall v hv.1) hcons
    have hrest := ih₂ (fun x hx => hvs x (List.mem_cons_of_mem _ hx))
      (List.forall_mem_append.2 ⟨fun x hx => (mem_depthFirst hx).1, hcons⟩)
    rw [List.map_cons, depthFirst_enter hv', hnext v hv.1, List.map_append, List.map_cons, hrest,
      List.map_append, List.map_cons, hinner, List.map_cons]
  | case3 seen v vs hv ih =>
    have hv' : ¬ (f v ∈ all.map f ∧ f v ∉ seen.map f) := by
      rintro ⟨-, hs⟩
      exact hv ⟨hvs v List.mem_cons_self, fun h => hs (List.mem_map_of_mem h)⟩
    rw [List.map_cons, depthFirst_skip hv']
    exact ih (fun x hx => hvs x (List.mem_cons_of_mem _ hx)) hseen

/-! ### The walk over a stack -/

namespace Digraph

variable {ν ε : Type}

theorem mem_nodeIds {g : Digraph ν ε} {v : NodeId} : v ∈ g.nodeIds ↔ v.index < g.nodeCount := by
  rw [nodeIds, List.mem_map]
  constructor
  · rintro ⟨i, hi, rfl⟩
    exact List.mem_range.1 hi
  · intro h
    exact ⟨v.index, List.mem_range.2 h, rfl⟩

/-- Edges do not lead out of the graph. -/
theorem nodeIds_closed (g : Digraph ν ε) :
    ∀ v ∈ g.nodeIds, ∀ w ∈ g.successors v, w ∈ g.nodeIds := by
  intro v _ w hw
  exact mem_nodeIds.2 (lt_of_mem_successors hw)

theorem walk_nil (g : Digraph ν ε) (seen : List NodeId) : g.walk seen [] = [] := by
  rw [walk]

theorem walk_leave (g : Digraph ν ε) (seen : List NodeId) (v : NodeId) (stack : List Visit) :
    g.walk seen (.leave v :: stack) = v :: g.walk seen stack := by
  rw [walk]

theorem walk_enter {g : Digraph ν ε} {seen : List NodeId} {v : NodeId}
    (h : v.index < g.nodeCount ∧ v ∉ seen) (stack : List Visit) :
    g.walk seen (.enter v :: stack) =
      g.walk (v :: seen) ((g.successors v).map .enter ++ .leave v :: stack) := by
  rw [walk, dif_pos h]

theorem walk_skip {g : Digraph ν ε} {seen : List NodeId} {v : NodeId}
    (h : ¬ (v.index < g.nodeCount ∧ v ∉ seen)) (stack : List Visit) :
    g.walk seen (.enter v :: stack) = g.walk seen stack := by
  rw [walk, dif_neg h]

/-- A walk asks of the nodes it has seen only which they are. -/
theorem walk_congr (g : Digraph ν ε) {seen seen' : List NodeId} (h : ∀ v, v ∈ seen ↔ v ∈ seen')
    (stack : List Visit) : g.walk seen stack = g.walk seen' stack := by
  fun_induction walk g seen stack generalizing seen' with
  | case1 => rw [walk_nil]
  | case2 seen v stack ih => rw [walk_leave, ih h]
  | case3 seen v stack hv hlt ih =>
    rw [walk_enter ⟨hv.1, mt (h v).2 hv.2⟩]
    refine ih fun w => ?_
    rw [List.mem_cons, List.mem_cons, h]
  | case4 seen v stack hv ih =>
    rw [walk_skip (by rwa [← h v])]
    exact ih h

/-- **The two walks.** Entering nodes on a stack lists what the recursion lists, and goes on with
that as seen. -/
theorem walk_enter_append (g : Digraph ν ε) (seen vs : List NodeId) (stack : List Visit) :
    g.walk seen (vs.map .enter ++ stack) =
      depthFirst g.successors g.nodeIds seen vs ++
        g.walk (depthFirst g.successors g.nodeIds seen vs ++ seen) stack := by
  fun_induction depthFirst g.successors g.nodeIds seen vs generalizing stack with
  | case1 => rfl
  | case2 seen v vs hv _ inner _ ih₁ ih₂ =>
    have hv' : v.index < g.nodeCount ∧ v ∉ seen := ⟨mem_nodeIds.1 hv.1, hv.2⟩
    rw [List.map_cons, List.cons_append, walk_enter hv', ih₁, walk_leave, ih₂, List.append_assoc,
      List.cons_append]
    refine congrArg (inner ++ v :: ·) (congrArg _ (walk_congr g (fun w => ?_) stack))
    simp only [List.mem_append, List.mem_cons]
    tauto
  | case3 seen v vs hv ih =>
    have hv' : ¬ (v.index < g.nodeCount ∧ v ∉ seen) := fun h => hv ⟨mem_nodeIds.2 h.1, h.2⟩
    rw [List.map_cons, List.cons_append, walk_skip hv', ih]

/-- The postorder of a graph is that of the recursion. -/
theorem postorder_eq_depthFirst (g : Digraph ν ε) (start : NodeId) :
    g.postorder start = depthFirst g.successors g.nodeIds [] [start] := by
  have h := g.walk_enter_append [] [start] []
  rwa [walk_nil, List.append_nil, List.append_nil] at h

end Digraph

end FlowText
