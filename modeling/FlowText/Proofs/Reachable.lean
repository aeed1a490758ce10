import FlowText.Proofs.DepthFirst
import Mathlib.Data.List.Pairwise
import Mathlib.Logic.Relation

/-!
# What is reached depth first

`Reachable next` is reachability along `next`. If nothing was seen before, a walk depth first lists
exactly what can be reached from where it starts (`mem_depthFirst_iff`).

The list goes against the edges: what an item leads to is listed before the item, unless the item
can be reached from it (`before_or_reachable`). This is found for a walk that has seen some items
already: each case of the walk puts two lists together, with one item in between.
-/

namespace FlowText

variable {α : Type} {next : α → List α}

/-- **Reachable.** The second item is met on a way along `next` from the first one, of any
length. -/
abbrev Reachable (next : α → List α) : α → α → Prop := Relation.ReflTransGen fun v w => w ∈ next v

/-- The items come in the list in this order. -/
def Before (v w : α) (l : List α) : Prop := [v, w].Sublist l

theorem Before.append_right {v w : α} {l l' : List α} (h : Before v w l) : Before v w (l ++ l') :=
  List.Sublist.trans h (List.sublist_append_left l l')

theorem Before.append_left {v w : α} {l l' : List α} (h : Before v w l') : Before v w (l ++ l') :=
  List.Sublist.trans h (List.sublist_append_right l l')

theorem before_append {v w : α} {l l' : List α} (hv : v ∈ l) (hw : w ∈ l') : Before v w (l ++ l') :=
  List.Sublist.append (List.singleton_sublist.2 hv) (List.singleton_sublist.2 hw)

theorem Before.cons {v w x : α} {l : List α} (h : Before v w l) : Before v w (x :: l) :=
  List.Sublist.cons x h

theorem before_cons {v w : α} {l : List α} (hw : w ∈ l) : Before v w (v :: l) :=
  List.Sublist.cons_cons v (List.singleton_sublist.2 hw)

theorem Before.mem {v w : α} {l : List α} (h : Before v w l) : v ∈ l :=
  List.Sublist.subset h List.mem_cons_self

/-- An item in front has a smaller place. -/
theorem Before.idxOf_lt [DecidableEq α] {v w : α} {l : List α} (h : Before v w l) (hl : l.Nodup) :
    l.idxOf v < l.idxOf w := by
  have hplaces : l.Pairwise fun x y => l.idxOf x < l.idxOf y := by
    rw [List.pairwise_iff_getElem]
    intro i j hi hj hij
    rwa [hl.idxOf_getElem, hl.idxOf_getElem]
  exact List.pairwise_iff_forall_sublist.1 hplaces h

variable [DecidableEq α] {all seen : List α}

/-- What is listed can be reached from where the walk starts. -/
theorem reachable_of_mem_depthFirst {vs : List α} {x : α} (h : x ∈ depthFirst next all seen vs) :
    ∃ v ∈ vs, Reachable next v x := by
  fun_induction depthFirst next all seen vs with
  | case1 => cases h
  | case2 seen v vs hv _ inner _ ih₁ ih₂ =>
    rcases List.mem_append.1 h with h | h
    · obtain ⟨w, hw, hx⟩ := ih₁ h
      exact ⟨v, List.mem_cons_self, .head hw hx⟩
    rcases List.mem_cons.1 h with rfl | h
    · exact ⟨x, List.mem_cons_self, .refl⟩
    · obtain ⟨w, hw, hx⟩ := ih₂ h
      exact ⟨w, List.mem_cons_of_mem v hw, hx⟩
  | case3 seen v vs hv ih =>
    obtain ⟨w, hw, hx⟩ := ih h
    exact ⟨w, List.mem_cons_of_mem v hw, hx⟩

/-- Where the walk starts, it lists what was not seen. -/
theorem mem_depthFirst_or_seen {vs : List α} {v : α} (hv : v ∈ vs) (hall : v ∈ all) :
    v ∈ depthFirst next all seen vs ∨ v ∈ seen := by
  fun_induction depthFirst next all seen vs with
  | case1 => cases hv
  | case2 seen w vs hw _ inner _ ih₁ ih₂ =>
    rcases List.mem_cons.1 hv with rfl | hv
    · exact .inl (List.mem_append_right _ List.mem_cons_self)
    rcases ih₂ hv with h | h
    · exact .inl (List.mem_append_right _ (List.mem_cons_of_mem _ h))
    rcases List.mem_append.1 h with h | h
    · exact .inl (List.mem_append_left _ h)
    rcases List.mem_cons.1 h with rfl | h
    · exact .inl (List.mem_append_right _ List.mem_cons_self)
    · exact .inr h
  | case3 seen w vs hw ih =>
    rcases List.mem_cons.1 hv with rfl | hv
    · exact .inr (by_contra fun hs => hw ⟨hall, hs⟩)
    · exact ih hv

/-- **Against the edges.** What an item that is listed leads to was seen, or is listed before it, or
is listed and leads back to it. -/
theorem edge_depthFirst (hall : ∀ x ∈ all, ∀ y ∈ next x, y ∈ all) {vs : List α} {u w : α}
    (hu : u ∈ depthFirst next all seen vs) (hw : w ∈ next u) :
    w ∈ seen ∨ Before w u (depthFirst next all seen vs) ∨
      w ∈ depthFirst next all seen vs ∧ Reachable next w u := by
  have hwall : w ∈ all := hall u (mem_depthFirst hu).1 w hw
  fun_induction depthFirst next all seen vs with
  | case1 => cases hu
  | case2 seen v vs hv _ inner _ ih₁ ih₂ =>
    rcases List.mem_append.1 hu with hinner | hu
    · rcases ih₁ hinner with h | h | ⟨h, hreach⟩
      · rcases List.mem_cons.1 h with rfl | h
        · -- the item leads back to the one that is being walked from
          obtain ⟨x, hx, hxu⟩ := reachable_of_mem_depthFirst hinner
          exact .inr (.inr ⟨List.mem_append_right _ List.mem_cons_self, .head hx hxu⟩)
        · exact .inl h
      · exact .inr (.inl h.append_right)
      · exact .inr (.inr ⟨List.mem_append_left _ h, hreach⟩)
    rcases List.mem_cons.1 hu with rfl | hrest
    · rcases mem_depthFirst_or_seen hw hwall with h | h
      · exact .inr (.inl (before_append h List.mem_cons_self))
      rcases List.mem_cons.1 h with rfl | h
      · exact .inr (.inr ⟨List.mem_append_right _ List.mem_cons_self, .refl⟩)
      · exact .inl h
    · rcases ih₂ hrest with h | h | ⟨h, hreach⟩
      · rcases List.mem_append.1 h with h | h
        · exact .inr (.inl (before_append h (List.mem_cons_of_mem _ hrest)))
        rcases List.mem_cons.1 h with rfl | h
        · exact .inr (.inl (before_cons hrest).append_left)
        · exact .inl h
      · exact .inr (.inl h.cons.append_left)
      · exact .inr (.inr ⟨List.mem_append_right _ (List.mem_cons_of_mem _ h), hreach⟩)
  | case3 seen v vs hv ih => exact ih hu

variable {start : α}

/-- If nothing was seen before, what an item leads to is listed before it or leads back to it. -/
theorem before_or_reachable (hall : ∀ x ∈ all, ∀ y ∈ next x, y ∈ all) {u w : α}
    (hu : u ∈ depthFirst next all [] [start]) (hw : w ∈ next u) :
    Before w u (depthFirst next all [] [start]) ∨
      w ∈ depthFirst next all [] [start] ∧ Reachable next w u :=
  (edge_depthFirst hall hu hw).resolve_left List.not_mem_nil

/-- **Exactly what can be reached** is listed. -/
theorem mem_depthFirst_iff (hall : ∀ x ∈ all, ∀ y ∈ next x, y ∈ all)
    (hstart : start ∈ all) {x : α} :
    x ∈ depthFirst next all [] [start] ↔ Reachable next start x := by
  constructor
  · intro hx
    obtain ⟨v, hv, hreach⟩ := reachable_of_mem_depthFirst hx
    rwa [List.mem_singleton.1 hv] at hreach
  · intro hreach
    induction hreach with
    | refl =>
      exact (mem_depthFirst_or_seen List.mem_cons_self hstart).resolve_right List.not_mem_nil
    | tail _ hedge ih =>
      rcases before_or_reachable hall ih hedge with h | ⟨h, -⟩
      · exact h.mem
      · exact h

end FlowText
