import FlowText.Text.Natural
import Mathlib

/-!
# The natural order is total

Levels of an order are joined by `then`. What a level has to say about three names so that the
joined order is transitive is `Ordering.Chains`; it holds of the plain orders and is kept by `then`,
so it holds of the natural order (`chains_natural`). A list in natural order is therefore left as it
is by sorting (`sortByName_of_pairwise`). Only equal names compare as equal, so what is sorted
depends on the names and not on the order in which they come (`sortNatural_eq_of_perm`).
-/

namespace FlowText

/-- **Chains.** Two comparisons in a row that do not go down decide the comparison of their ends. -/
def Chains (ab bc ac : Ordering) : Prop := ab ≠ .gt → bc ≠ .gt → ac = ab.then bc

theorem Chains.then {ab bc ac ab' bc' ac' : Ordering} (h : Chains ab bc ac)
    (h' : Chains ab' bc' ac') : Chains (ab.then ab') (bc.then bc') (ac.then ac') := by
  revert h h'
  unfold Chains
  cases ab <;> cases bc <;> cases ac <;> cases ab' <;> cases bc' <;> cases ac' <;> decide

theorem chains_of_transCmp {α : Type} {cmp : α → α → Ordering} [Std.TransCmp cmp] (a b c : α) :
    Chains (cmp a b) (cmp b c) (cmp a c) := by
  intro hab hbc
  cases h₁ : cmp a b with
  | gt => exact absurd h₁ hab
  | lt =>
    cases h₂ : cmp b c with
    | gt => exact absurd h₂ hbc
    | lt => exact Std.TransCmp.lt_trans h₁ h₂
    | eq => exact Std.TransCmp.lt_of_lt_of_eq h₁ h₂
  | eq =>
    cases h₂ : cmp b c with
    | gt => exact absurd h₂ hbc
    | lt => exact Std.TransCmp.lt_of_eq_of_lt h₁ h₂
    | eq => exact Std.TransCmp.eq_trans h₁ h₂

theorem swap_then (o p : Ordering) : (o.then p).swap = o.swap.then p.swap := by
  cases o <;> rfl

/-! ### Digits and runs -/

theorem chains_compareDigits (d e f : List Char) :
    Chains (compareDigits d e) (compareDigits e f) (compareDigits d f) :=
  (chains_of_transCmp _ _ _).then (chains_of_transCmp _ _ _)

theorem compareDigits_swap (d e : List Char) : (compareDigits d e).swap = compareDigits e d := by
  simp only [compareDigits, swap_then]
  rw [← Std.OrientedCmp.eq_swap, ← Std.OrientedCmp.eq_swap]

namespace Runs

/-- The first text run. -/
def head : Runs → List Char
  | last t | more t _ _ => t

/-- The comparison behind the first text runs. -/
def compareTail : Runs → Runs → Ordering
  | last _, last _ => .eq
  | last _, more .. => .lt
  | more .., last _ => .gt
  | more _ d r, more _ e s => (compareDigits d e).then (r.compare s)

theorem compare_eq_then (r s : Runs) :
    r.compare s = (Ord.compare r.head s.head).then (compareTail r s) := by
  cases r <;> cases s <;> simp [Runs.compare, head, compareTail]

/-- The induction goes along the runs of the name in the middle. -/
theorem chains_compare (r s t : Runs) : Chains (r.compare s) (s.compare t) (r.compare t) := by
  induction s generalizing r t with
  | last u =>
    rw [compare_eq_then, compare_eq_then, compare_eq_then]
    -- a name that ends in the middle has nothing behind it to compare, so the ends decide
    refine (chains_of_transCmp _ _ _).then ?_
    cases r <;> cases t <;> intro h h'
    case last.last | last.more => rfl
    case more.last | more.more => exact absurd rfl h
  | more u e s ih =>
    rw [compare_eq_then, compare_eq_then, compare_eq_then]
    refine (chains_of_transCmp _ _ _).then ?_
    cases r with
    | last x =>
      cases t with
      | last y => exact fun _ h => absurd rfl h
      | more y f t => exact fun _ _ => rfl
    | more x d r =>
      cases t with
      | last y => exact fun _ h => absurd rfl h
      | more y f t => exact (chains_compareDigits d e f).then (ih r t)

theorem compare_swap (r s : Runs) : (r.compare s).swap = s.compare r := by
  induction r generalizing s with
  | last t =>
    cases s with
    | last u =>
      simp only [Runs.compare]
      rw [← Std.OrientedCmp.eq_swap]
    | more u e s =>
      simp only [Runs.compare, swap_then]
      rw [← Std.OrientedCmp.eq_swap]
      rfl
  | more t d r ih =>
    cases s with
    | last u =>
      simp only [Runs.compare, swap_then]
      rw [← Std.OrientedCmp.eq_swap]
      rfl
    | more u e s =>
      simp only [Runs.compare, swap_then, ih, compareDigits_swap]
      rw [← Std.OrientedCmp.eq_swap]

end Runs

/-! ### Names -/

theorem chains_natural (a b c : String) : Chains (natural a b) (natural b c) (natural a c) :=
  (Runs.chains_compare _ _ _).then (chains_of_transCmp _ _ _)

theorem natural_swap (a b : String) : (natural a b).swap = natural b a := by
  rw [natural, natural, swap_then, Runs.compare_swap, ← Std.OrientedCmp.eq_swap]

theorem natural_self (a : String) : natural a a = .eq := by
  have h := natural_swap a a
  cases hn : natural a a with
  | eq => rfl
  | lt =>
    rw [hn] at h
    cases h
  | gt =>
    rw [hn] at h
    cases h

/-- The first name does not come behind the second one. -/
def notBehind (a b : String) : Bool := natural a b != .gt

theorem notBehind_trans {a b c : String} (hab : notBehind a b = true)
    (hbc : notBehind b c = true) : notBehind a c = true := by
  have hab' : natural a b ≠ .gt := by simpa [notBehind] using hab
  have hbc' : natural b c ≠ .gt := by simpa [notBehind] using hbc
  rw [notBehind, chains_natural a b c hab' hbc']
  cases h : natural a b with
  | gt => exact absurd h hab'
  | lt => rfl
  | eq => simpa using hbc'

theorem notBehind_total (a b : String) : (notBehind a b || notBehind b a) = true := by
  rw [notBehind, notBehind, ← natural_swap a b]
  cases natural a b <;> rfl

/-- **Sorted.** Sorting gives a list in natural order. -/
theorem pairwise_sortByName {α : Type} (name : α → String) (items : List α) :
    (sortByName name items).Pairwise fun x y => notBehind (name x) (name y) = true := by
  have htrans : ∀ x y z : α, notBehind (name x) (name y) = true →
      notBehind (name y) (name z) = true → notBehind (name x) (name z) = true :=
    fun _ _ _ => notBehind_trans
  have htotal : ∀ x y : α, (notBehind (name x) (name y) || notBehind (name y) (name x)) = true :=
    fun _ _ => notBehind_total _ _
  exact List.pairwise_mergeSort htrans htotal items

/-- **Idempotent.** Sorting leaves a list in natural order as it is. -/
theorem sortByName_of_pairwise {α : Type} {name : α → String} {items : List α}
    (h : items.Pairwise fun x y => notBehind (name x) (name y) = true) :
    sortByName name items = items :=
  List.mergeSort_of_pairwise h

/-- The natural order tells all names apart. -/
theorem eq_of_natural_eq {a b : String} (h : natural a b = .eq) : a = b := by
  have hboth := Ordering.then_eq_eq.1 h
  exact Std.LawfulEqCmp.eq_of_compare hboth.2

theorem notBehind_antisymm {a b : String} (hab : notBehind a b = true)
    (hba : notBehind b a = true) : a = b := by
  refine eq_of_natural_eq ?_
  rw [notBehind] at hab hba
  rw [← natural_swap a b] at hba
  cases h : natural a b with
  | eq => rfl
  | lt =>
    rw [h] at hba
    cases hba
  | gt =>
    rw [h] at hab
    cases hab

/-- Names in natural order of which none occurs twice go up strictly. -/
theorem pairwise_natural_lt {names : List String} (hn : names.Nodup) :
    (sortNatural names).Pairwise fun a b => natural a b = .lt := by
  have hsorted := pairwise_sortByName id names
  have hnodup : (sortNatural names).Nodup := (List.mergeSort_perm _ _).nodup_iff.2 hn
  refine (hsorted.and hnodup).imp fun {a b} ⟨hle, hne⟩ => ?_
  change notBehind a b = true at hle
  rw [notBehind] at hle
  cases h : natural a b with
  | lt => rfl
  | eq => exact absurd (eq_of_natural_eq h) hne
  | gt =>
    rw [h] at hle
    cases hle

/-- Sorting by the natural order forgets an order. -/
theorem sortNatural_eq_of_perm {names names' : List String} (h : names.Perm names') :
    sortNatural names = sortNatural names' := by
  refine List.Perm.eq_of_pairwise (fun a b _ _ => notBehind_antisymm) (pairwise_sortByName id names)
    (pairwise_sortByName id names') ?_
  exact (List.mergeSort_perm _ _).trans (h.trans (List.mergeSort_perm _ _).symm)

end FlowText
