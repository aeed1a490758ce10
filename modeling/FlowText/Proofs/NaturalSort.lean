import FlowText.Proofs.Links
import FlowText.Proofs.NameRuns

/-!
# Lists in natural order

The natural order is total and tells all names apart, and the runs that it compares are of one kind
(`isDigits_runs`). So a list of names has one arrangement in natural order, which sorting finds
(`eq_sortNatural_iff`), and the addresses of a graph, which are distinct, go up strictly
(`natural_order_is_total`).
-/

namespace FlowText

theorem natural_eq_iff {a b : String} : natural a b = .eq ↔ a = b := by
  refine ⟨eq_of_natural_eq, ?_⟩
  rintro rfl
  exact natural_self a

/-- Runs at one place of two names are of one kind. -/
theorem isDigits_runs {a b : String} {i : Nat} {r s : Run} (hr : (runs a)[i]? = some r)
    (hs : (runs b)[i]? = some s) : r.isDigits = s.isDigits := by
  rw [(alternates_runs a).kinds i r hr, (alternates_runs b).kinds i s hs]

theorem notBehind_iff {a b : String} : notBehind a b = true ↔ natural a b ≠ .gt := bne_iff_ne

/-- **One arrangement.** There is no other way to put names in order. -/
theorem eq_sortNatural_iff {names sorted : List String} : sorted = sortNatural names ↔
    sorted.Perm names ∧ sorted.Pairwise fun a b => natural a b ≠ .gt := by
  constructor
  · rintro rfl
    exact ⟨List.mergeSort_perm _ _, (pairwise_sortByName id names).imp notBehind_iff.1⟩
  · rintro ⟨hp, hs⟩
    rw [← sortNatural_eq_of_perm hp]
    exact (sortByName_of_pairwise (hs.imp notBehind_iff.2)).symm

namespace Cfg

/-- The addresses in natural order are those of the nodes, each once. -/
theorem count_sortedAddrs (g : Cfg) (addr : String) :
    g.sortedAddrs.count addr = if (g.nodeId? addr).isSome then 1 else 0 := by
  cases h : g.nodeId? addr with
  | none => exact List.count_eq_zero.2 fun hm => nodeId?_eq_none_iff.1 h (mem_sortedAddrs.1 hm)
  | some v =>
    refine List.count_eq_one_of_mem g.nodup_sortedAddrs (mem_sortedAddrs.2 ?_)
    by_contra hne
    cases h.symm.trans (nodeId?_eq_none_iff.2 hne)

end Cfg

/-- **The natural order is total and matches equality.** Only equal names compare as equal, the
comparison from the other side is the reverse, and two comparisons in a row that do not go down
decide that of their ends. Runs at one place of two names are of one kind, so that it does not
matter what is said of runs of different kinds. Hence a list of names has exactly one permutation in
natural order, which sorting gives, whatever order the names come in, and the sorted addresses of a
graph go up strictly and have each address once. -/
theorem natural_order_is_total :
    (∀ a b, natural a b = .eq ↔ a = b) ∧
    (∀ a b, natural b a = (natural a b).swap) ∧
    (∀ a b c, natural a b ≠ .gt → natural b c ≠ .gt →
      natural a c = (natural a b).then (natural b c)) ∧
    (∀ (a b : String) (i : Nat) (r s : Run), (runs a)[i]? = some r → (runs b)[i]? = some s →
      r.isDigits = s.isDigits) ∧
    (∀ (mixed : Run → Run → Ordering) (a b : String),
      natural a b = (List.compareLex (Run.compare mixed) (runs a) (runs b)).then (compare a b)) ∧
    (∀ names sorted : List String, sorted = sortNatural names ↔
      sorted.Perm names ∧ sorted.Pairwise fun a b => natural a b ≠ .gt) ∧
    (∀ names names' : List String, names.Perm names' → sortNatural names = sortNatural names') ∧
    ∀ g : Cfg, (g.sortedAddrs.Pairwise fun a b => natural a b = .lt) ∧
      ∀ addr, g.sortedAddrs.count addr = if (g.nodeId? addr).isSome then 1 else 0 := by
  refine ⟨fun _ _ => natural_eq_iff, fun a b => (natural_swap a b).symm, chains_natural,
    fun _ _ _ _ _ => isDigits_runs, natural_eq_compareLex, fun _ _ => eq_sortNatural_iff,
    fun _ _ => sortNatural_eq_of_perm, fun g => ⟨?_, g.count_sortedAddrs⟩⟩
  rw [Cfg.sortedAddrs_eq]
  exact pairwise_natural_lt g.addrs_nodup

/-- Names whose numbers agree stand between those with smaller and those with larger numbers. -/
theorem registers_sorted :
    natural "r07" "r10" = .lt ∧ sortNatural ["r10", "r7", "r2", "r07"] =
      ["r2", "r07", "r7", "r10"] := by
  obtain ⟨-, -, hchain, -, -, hsorted, -⟩ := natural_order_is_total
  have hzero : natural "r07" "r7" = .lt := by decide +kernel
  have hnumber : natural "r7" "r10" = .lt := by decide +kernel
  refine ⟨?_, ((hsorted _ _).2 ⟨?_, ?_⟩).symm⟩
  · rw [hchain "r07" "r7" "r10" (by rw [hzero]; decide) (by rw [hnumber]; decide), hzero]
    rfl
  · decide +kernel
  · decide +kernel

end FlowText
