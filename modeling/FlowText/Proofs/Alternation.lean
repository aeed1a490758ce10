import FlowText.Proofs.LocatedErrors

/-!
# Alternating sequences

A compound is made from a sequence that starts and ends with a condition and alternates between
conditions and connectives. `Verdict kinds v` says, from the kinds of the items alone, what there is
to be said of a sequence: nothing, or the one thing that is wrong with it. `Chain.ofItems` says just
that, and a sequence that it accepts is the one that the chain has (`Chain.verdict_ofItems`,
`Chain.ofItems_eq_ok_iff`).
-/

namespace FlowText

/-- **Alternating.** The number of items is odd, and the even positions are those of conditions. -/
structure Alternating (kinds : List Bool) : Prop where
  odd : kinds.length % 2 = 1
  placed : ∀ i < kinds.length, kinds[i]? = some (i % 2 == 0)

/-- The first item that is not of the kind of its position. -/
structure FirstMisplaced (kinds : List Bool) (i : Nat) : Prop where
  lt : i < kinds.length
  misplaced : kinds[i]? ≠ some (i % 2 == 0)
  first : ∀ j < i, kinds[j]? = some (j % 2 == 0)

/-- **Verdict.** What there is to be said of a sequence. An even number of items is said first. -/
inductive Verdict (kinds : List Bool) : Except Defect Unit → Prop where
  | accepted (h : Alternating kinds) : Verdict kinds (.ok ())
  | even (h : kinds.length % 2 = 0) : Verdict kinds (.error (.evenItems kinds.length))
  | misplaced {i : Nat} (hodd : kinds.length % 2 = 1) (h : FirstMisplaced kinds i) :
    Verdict kinds (.error (.notAlternating i))

theorem verdict_even {α : Type} {kind : α → Bool} {items : List α} (h : items.length % 2 = 0) :
    Verdict (items.map kind) (.error (.evenItems items.length)) := by
  have heven : (items.map kind).length % 2 = 0 := by rwa [List.length_map]
  have hverdict := Verdict.even heven
  rwa [List.length_map] at hverdict

theorem FirstMisplaced.unique {kinds : List Bool} {i j : Nat} (hi : FirstMisplaced kinds i)
    (hj : FirstMisplaced kinds j) : i = j := by
  rcases Nat.lt_trichotomy i j with h | h | h
  · exact absurd (hj.first i h) hi.misplaced
  · exact h
  · exact absurd (hi.first j h) hj.misplaced

/-- There is one thing to be said. -/
theorem Verdict.unique {kinds : List Bool} {v w : Except Defect Unit} (hv : Verdict kinds v)
    (hw : Verdict kinds w) : v = w := by
  have hboth {i : Nat} (ha : Alternating kinds) (hi : FirstMisplaced kinds i) : False :=
    hi.misplaced (ha.placed i hi.lt)
  cases hv with
  | accepted ha =>
    cases hw with
    | accepted => rfl
    | even he => exact absurd (ha.odd.symm.trans he) (by decide)
    | misplaced _ hi => exact (hboth ha hi).elim
  | even he =>
    cases hw with
    | accepted ha => exact absurd (ha.odd.symm.trans he) (by decide)
    | even => rfl
    | misplaced ho => exact absurd (ho.symm.trans he) (by decide)
  | misplaced ho hi =>
    cases hw with
    | accepted ha => exact (hboth ha hi).elim
    | even he => exact absurd (ho.symm.trans he) (by decide)
    | misplaced _ hj => rw [hi.unique hj]

theorem verdict_ok_iff {kinds : List Bool} : Verdict kinds (.ok ()) ↔ Alternating kinds := by
  refine ⟨fun h => ?_, .accepted⟩
  cases h with
  | accepted h => exact h

/-- An answer that comes with the verdict is an error just where the verdict is. -/
theorem Verdict.eq_error_iff {α : Type} {kinds : List Bool} {r : Except Defect α} {d : Defect}
    (h : Verdict kinds (r.map fun _ => ())) : r = .error d ↔ Verdict kinds (.error d) := by
  constructor
  · rintro rfl
    exact h
  · intro hd
    have hr := h.unique hd
    cases r with
    | error d' => exact congrArg Except.error (Except.error.inj hr)
    | ok a => cases hr

/-- **Two more items.** The sequence ends with a condition, so a connective and a condition may
follow. -/
theorem Alternating.append {kinds : List Bool} (h : Alternating kinds) :
    Alternating (kinds ++ [false, true]) := by
  have hodd := h.odd
  refine ⟨by rw [List.length_append, List.length_cons, List.length_singleton]; omega,
    fun i hi => ?_⟩
  rw [List.length_append, List.length_cons, List.length_singleton] at hi
  rcases Nat.lt_or_ge i kinds.length with hlt | hge
  · rw [List.getElem?_append_left hlt, h.placed i hlt]
  · rw [List.getElem?_append_right hge]
    obtain rfl | rfl : i = kinds.length ∨ i = kinds.length + 1 := by omega
    · simp [hodd]
    · have heven : (kinds.length + 1) % 2 = 0 := by omega
      simp [heven]

/-- The first item behind an alternating sequence that does not go on with it is the first one out
of place. -/
theorem Alternating.firstMisplaced_append {kinds : List Bool} (h : Alternating kinds)
    (more : List Bool) : FirstMisplaced (kinds ++ true :: more) kinds.length ∧
      FirstMisplaced (kinds ++ false :: false :: more) (kinds.length + 1) := by
  have hodd := h.odd
  have hfirst (more : List Bool) (j : Nat) (hj : j < kinds.length) :
      (kinds ++ more)[j]? = some (j % 2 == 0) := by
    rw [List.getElem?_append_left hj, h.placed j hj]
  refine ⟨⟨by simp, ?_, hfirst _⟩, ⟨by simp, ?_, fun j hj => ?_⟩⟩
  · simp [hodd]
  · have heven : (kinds.length + 1) % 2 = 0 := by omega
    simp [heven]
  · rcases Nat.lt_succ_iff_lt_or_eq.1 hj with hj | rfl
    · exact hfirst _ j hj
    · simp [hodd]

/-! ### The items of a compound -/

/-- The item is a condition. -/
def Cond.Item.isCond : Cond.Item → Bool
  | cond _ => true
  | connective _ => false

namespace Chain

/-- **Every chain alternates.** -/
theorem alternating_items (chain : Chain) : Alternating (chain.items.map Cond.Item.isCond) := by
  cases chain with
  | single c =>
    refine ⟨rfl, fun i hi => ?_⟩
    obtain rfl := Nat.lt_one_iff.1 hi
    rfl
  | join front op c =>
    rw [items, List.map_append]
    exact front.alternating_items.append

/-- What stands behind a chain goes on with it, or there is a first item that is out of place. -/
theorem extend_spec (chain : Chain) (rest : List Cond.Item) (heven : rest.length % 2 = 0) :
    (∃ chain', chain.extend chain.items.length rest = .ok chain' ∧
      chain'.items = chain.items ++ rest) ∨
      ∃ i, chain.extend chain.items.length rest = .error (.notAlternating i) ∧
        FirstMisplaced ((chain.items ++ rest).map Cond.Item.isCond) i := by
  match rest with
  | [] => exact .inl ⟨chain, by rw [extend], (List.append_nil _).symm⟩
  | [.connective _] => exact absurd heven (by simp)
  | .cond c :: more =>
    have h := (chain.alternating_items.firstMisplaced_append (more.map Cond.Item.isCond)).1
    rw [List.length_map] at h
    refine .inr ⟨_, by rw [extend], ?_⟩
    rw [List.map_append]
    exact h
  | .connective l :: .connective m :: more =>
    have h := (chain.alternating_items.firstMisplaced_append (more.map Cond.Item.isCond)).2
    rw [List.length_map] at h
    refine .inr ⟨_, by rw [extend], ?_⟩
    rw [List.map_append]
    exact h
  | .connective l :: .cond c :: more =>
    have hmore : more.length % 2 = 0 := by
      simp only [List.length_cons] at heven
      omega
    -- two items are taken up, and the chain has two items more
    have hlength : (join chain l c).items.length = chain.items.length + 2 := by
      rw [items, List.length_append]
      rfl
    have happ : (join chain l c).items ++ more =
        chain.items ++ .connective l :: .cond c :: more := by
      simp [items]
    have h := extend_spec (join chain l c) more hmore
    rw [hlength, happ] at h
    rw [extend]
    exact h
  termination_by rest.length

/-- **What is said of a sequence** is what there is to be said of it, and a chain is made from its
items. -/
theorem verdict_ofItems (items : List Cond.Item) :
    Verdict (items.map Cond.Item.isCond) ((ofItems items).map fun _ => ()) ∧
      ∀ chain, ofItems items = .ok chain → chain.items = items := by
  unfold ofItems
  by_cases heven : items.length % 2 = 0
  · rw [if_pos heven]
    exact ⟨verdict_even heven, nofun⟩
  · rw [if_neg heven]
    have hodd : items.length % 2 = 1 := by omega
    match items with
    | [] => cases hodd
    | .connective l :: rest =>
      refine ⟨.misplaced (by rwa [List.length_map]) ⟨by simp, ?_, nofun⟩, nofun⟩
      simp [Cond.Item.isCond]
    | .cond c :: rest =>
      have hrest : rest.length % 2 = 0 := by
        rw [List.length_cons] at hodd
        omega
      dsimp only
      rcases extend_spec (single c) rest hrest with ⟨chain, hchain, hitems⟩ | ⟨i, hi, hfirst⟩
      · have hok : (single c).extend 1 rest = .ok chain := hchain
        have hitems' : chain.items = .cond c :: rest := hitems
        rw [hok]
        refine ⟨.accepted (hitems' ▸ chain.alternating_items), ?_⟩
        rintro chain' ⟨⟩
        exact hitems'
      · have herror : (single c).extend 1 rest = .error (.notAlternating i) := hi
        rw [herror]
        exact ⟨.misplaced (by rwa [List.length_map]) hfirst, nofun⟩

/-- **A sequence is accepted** if and only if it alternates, and the chain has exactly its items. -/
theorem ofItems_eq_ok_iff {items : List Cond.Item} {chain : Chain} :
    ofItems items = .ok chain ↔ Alternating (items.map Cond.Item.isCond) ∧ chain.items = items := by
  constructor
  · intro h
    have hitems := (verdict_ofItems items).2 chain h
    exact ⟨hitems ▸ chain.alternating_items, hitems⟩
  · rintro ⟨-, rfl⟩
    exact ofItems_items chain

end Chain

end FlowText
