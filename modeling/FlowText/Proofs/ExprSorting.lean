import FlowText.Proofs.ExprOrder
import FlowText.Proofs.Results

/-!
# Sorting expressions

Before anything is moved, a few comparisons are made: what is of no ordered kind is compared with
the first of the list, and of the memory references the bases, of which those that are the same
count once. They decide whether every two members of the list have an order
(`Expr.checkSortable_eq_ok_iff`), and what they report is reported by two members
(`Expr.exists_of_checkSortable`).

A merge sort compares members only. So where every two of them have an order, what would be said of
two others does not matter (`Expr.mergeSort_notBehindOr`), and the laws of sorting hold as if the
order were total. What compares as equal is the same, so that the sorted list depends on the members
alone, up to comments and radices (`Expr.sorting_all_or_nothing`).
-/

namespace FlowText

/-! ### Sorting a list whose members are ranked -/

/-- **Ranked.** Among the members of a list the comparison is a total preorder. Of others nothing is
said. -/
structure Ranked {α : Type} (le : α → α → Bool) (l : List α) : Prop where
  trans : ∀ a ∈ l, ∀ b ∈ l, ∀ c ∈ l, le a b = true → le b c = true → le a c = true
  total : ∀ a ∈ l, ∀ b ∈ l, (le a b || le b a) = true

section Ranked

variable {α : Type} {le : α → α → Bool} {l : List α}

/-- Sorting compares members only. -/
theorem mergeSort_congr {le' : α → α → Bool} (h : ∀ a ∈ l, ∀ b ∈ l, le a b = le' a b) :
    l.mergeSort le = l.mergeSort le' := by
  have hmap := List.map_mergeSort (f := id) h
  rwa [List.map_id, List.map_id] at hmap

/-- The members are sorted alike if each of them carries the proof that it is one. -/
theorem map_mergeSort_attach (le : α → α → Bool) (l : List α) :
    (l.attach.mergeSort fun a b => le a.1 b.1).map Subtype.val = l.mergeSort le := by
  rw [List.map_mergeSort (s := le) fun _ _ _ _ => rfl, List.attach_map_subtype_val]

namespace Ranked

theorem trans_attach (h : Ranked le l) (a b c : { a // a ∈ l }) :
    le a.1 b.1 = true → le b.1 c.1 = true → le a.1 c.1 = true :=
  h.trans a.1 a.2 b.1 b.2 c.1 c.2

theorem total_attach (h : Ranked le l) (a b : { a // a ∈ l }) : (le a.1 b.1 || le b.1 a.1) = true :=
  h.total a.1 a.2 b.1 b.2

theorem pairwise_mergeSort (h : Ranked le l) :
    (l.mergeSort le).Pairwise fun a b => le a b = true := by
  rw [← map_mergeSort_attach, List.pairwise_map]
  exact List.pairwise_mergeSort h.trans_attach h.total_attach _

/-- **Stable.** Members of which none is above another one keep their order. -/
theorem filter_mergeSort (h : Ranked le l) {p : α → Bool}
    (hp : ∀ a ∈ l, ∀ b ∈ l, p a = true → p b = true → le a b = true) :
    (l.mergeSort le).filter p = l.filter p := by
  have hlevel : (l.attach.filter fun a => p a.1).Pairwise fun a b => le a.1 b.1 = true :=
    List.pairwise_of_forall_mem_list fun a ha b hb =>
      hp a.1 a.2 b.1 b.2 (List.mem_filter.1 ha).2 (List.mem_filter.1 hb).2
  have hkept :=
    (List.sublist_mergeSort h.trans_attach h.total_attach hlevel List.filter_sublist).filter
    fun a => p a.1
  rw [List.filter_filter] at hkept
  -- sorting keeps the number of the members that are kept
  have hlen :=
    ((List.mergeSort_perm l.attach fun a b => le a.1 b.1).filter fun a => p a.1).length_eq
  have heq := hkept.eq_of_length (by simp only [Bool.and_self, hlen])
  have hval := congrArg (List.map Subtype.val) heq
  simp only [Bool.and_self] at hval
  rw [← map_mergeSort_attach, List.filter_map]
  refine hval.symm.trans ?_
  have hfilter := List.filter_map (f := Subtype.val) (p := p) (l := l.attach)
  rw [List.attach_map_subtype_val] at hfilter
  exact hfilter.symm

end Ranked

end Ranked

namespace Expr

variable {es : List Expr}

/-! ### The comparisons that are made -/

/-- **Comparable.** Every two members of the list have an order, and each of them has one with
itself. -/
def Comparable (es : List Expr) : Prop := ∀ a ∈ es, ∀ b ∈ es, ∃ o, order a b = .ok o

theorem bases_concat (es : List Expr) (e : Expr) :
    bases (es ++ [e]) = bases.addBase (bases es) e := List.foldl_concat ..

/-- What is found is the base of a member. -/
theorem exists_mem_of_mem_bases {b : Expr} (h : b ∈ bases es) : ∃ ty o c, mem ty b o c ∈ es := by
  induction es using List.reverseRecOn with
  | nil => cases h
  | append_singleton es e ih =>
    have hold : b ∈ bases es → ∃ ty o c, mem ty b o c ∈ es ++ [e] := fun hb => by
      obtain ⟨ty, o, c, hm⟩ := ih hb
      exact ⟨ty, o, c, List.mem_append_left _ hm⟩
    rw [bases_concat] at h
    cases e with
    | mem ty b' o c =>
      rw [bases.addBase] at h
      split at h
      · exact hold h
      · rcases List.mem_append.1 h with h | h
        · exact hold h
        · obtain rfl := List.mem_singleton.1 h
          exact ⟨ty, o, c, List.mem_append_right _ List.mem_cons_self⟩
    | _ => exact hold h

/-- Every base of a member is found, as an expression that is the same. -/
theorem exists_same_of_mem {ty : String} {b : Expr} {o : Int64} {c : String}
    (h : mem ty b o c ∈ es) : ∃ b' ∈ bases es, b'.same b = true := by
  induction es using List.reverseRecOn with
  | nil => cases h
  | append_singleton es e ih =>
    have hkept : ∀ b' ∈ bases es, b' ∈ bases (es ++ [e]) := by
      intro b' hb'
      rw [bases_concat]
      cases e with
      | mem ty b o c =>
        rw [bases.addBase]
        split
        · exact hb'
        · exact List.mem_append_left _ hb'
      | _ => exact hb'
    rcases List.mem_append.1 h with h | h
    · obtain ⟨b', hb', hsame⟩ := ih h
      exact ⟨b', hkept b' hb', hsame⟩
    · obtain rfl := List.mem_singleton.1 h
      rw [bases_concat, bases.addBase]
      split
      · next hany => exact List.any_eq_true.1 hany
      · exact ⟨b, List.mem_append_right _ List.mem_cons_self, same_iff_bare_eq.2 rfl⟩

/-- No two that are found are the same. -/
theorem pairwise_bases (es : List Expr) : (bases es).Pairwise fun a b => a.same b = false := by
  induction es using List.reverseRecOn with
  | nil => exact .nil
  | append_singleton es e ih =>
    rw [bases_concat]
    cases e with
    | mem ty b o c =>
      rw [bases.addBase]
      split
      · exact ih
      · next hany =>
        refine List.pairwise_append.2 ⟨ih, List.pairwise_singleton _ _, fun a ha b' hb' => ?_⟩
        obtain rfl := List.mem_singleton.1 hb'
        simpa using fun hsame => hany (List.any_eq_true.2 ⟨a, ha, hsame⟩)
    | _ => exact ih

/-- The first pair without an order is what comparing all pairs fails with. -/
theorem orderPairs_cases (bs : List Expr) :
    (orderPairs bs = .ok () ∧ bs.Pairwise fun a b => ∃ o, order a b = .ok o) ∨
      ∃ a b e, [a, b].Sublist bs ∧ order a b = .error e ∧ orderPairs bs = .error e := by
  induction bs with
  | nil => exact .inl ⟨rfl, .nil⟩
  | cons b bs ih =>
    rw [orderPairs]
    rcases forM_discard (order b) bs with ⟨hok, hall⟩ | ⟨c, hc, e, he, herr⟩
    · rw [hok]
      rcases ih with ⟨hok', hpairs⟩ | ⟨a, c, e, hsub, he, herr⟩
      · exact .inl ⟨hok', hpairs.cons hall⟩
      · exact .inr ⟨a, c, e, hsub.cons _, he, herr⟩
    · rw [herr]
      exact .inr ⟨b, c, e, (List.singleton_sublist.2 hc).cons_cons _, he, rfl⟩

/-- An order of the bases is one of the memory references, and where the bases have none these have
none. -/
theorem order_mem_of_base {a b : Expr} (hne : a.same b = false) (ty tz : String) (o p : Int64)
    (c d : String) :
    order (mem ty a o c) (mem tz b p d) = (order a b).map (·.then (compareRest ty tz o p)) := by
  rw [order, if_neg (by simp [hne])]
  cases order a b <;> rfl

/-- **Joined.** The bases do not stand in the way of an order of memory references. -/
def Joined (a b : Expr) : Prop := ∃ o, baseOrder? a b = some o

/-- Equal bases do not stand in the way. -/
theorem joined_of_same {a b : Expr} (h : a.same b = true) : Joined a b :=
  ⟨.eq, by rw [baseOrder?, if_pos h]⟩

/-- Bases that have an order do not, either. -/
theorem joined_of_order {a b : Expr} {o : Ordering} (h : order a b = .ok o) : Joined a b := by
  by_cases hsame : a.same b = true
  · exact joined_of_same hsame
  · exact ⟨o, by rw [baseOrder?, if_neg hsame, order_eq_ok_iff.1 h]⟩

theorem Joined.symm {a b : Expr} (h : Joined a b) : Joined b a := by
  obtain ⟨o, ho⟩ := h
  rw [baseOrder?] at ho
  split at ho
  · next hsame => exact joined_of_same (same_iff_bare_eq.2 (same_iff_bare_eq.1 hsame).symm)
  · exact joined_of_order (order_eq_ok_iff.2 (order?_swap a b ▸ congrArg (Option.map _) ho))

instance : Std.Symm Joined := ⟨fun _ _ => Joined.symm⟩

/-- If the bases that are found are joined in one direction, so are all bases of members. -/
theorem joined_of_pairwise (h : (bases es).Pairwise fun a b => ∃ o, order a b = .ok o)
    {ty tz : String}
    {a b : Expr} {o p : Int64} {c d : String} (ha : mem ty a o c ∈ es) (hb : mem tz b p d ∈ es) :
    Joined a b := by
  obtain ⟨a', ha', hsa⟩ := exists_same_of_mem ha
  obtain ⟨b', hb', hsb⟩ := exists_same_of_mem hb
  have hpairs := h.imp fun ⟨_, ho⟩ => joined_of_order ho
  obtain ⟨q, hq⟩ :=
    hpairs.forall_of_forall (fun x _ => joined_of_same (same_iff_bare_eq.2 rfl)) ha' hb'
  refine ⟨q, ?_⟩
  rw [← baseOrder?_bare, ← same_iff_bare_eq.1 hsa, ← same_iff_bare_eq.1 hsb, baseOrder?_bare, hq]

/-- **Sortable lists.** A check that succeeds has seen enough. -/
theorem comparable_of_checkSortable (h : checkSortable es = .ok ()) : Comparable es := by
  cases es with
  | nil => exact fun _ ha => absurd ha List.not_mem_nil
  | cons first es =>
    rw [checkSortable] at h
    split at h
    · next f hf =>
      obtain ⟨o, ho⟩ := discard_eq_ok_iff.1 h
      have hordered := (isOrdered_of_order? (order_eq_ok_iff.1 ho)).2
      have hnot := List.find?_some hf
      rw [hordered] at hnot
      cases hnot
    · next hnone =>
      have hordered : ∀ e ∈ first :: es, e.isOrdered = true := fun e he => by
        simpa using List.find?_eq_none.1 hnone e he
      rcases orderPairs_cases (bases (first :: es)) with ⟨-, hpairs⟩ | ⟨_, _, _, -, -, herr⟩
      · intro a ha b hb
        refine exists_congr (fun _ => order_eq_ok_iff) |>.2 ?_
        have hoa := hordered a ha
        have hob := hordered b hb
        cases a with
        | reg n c =>
          cases b with
          | reg m d => exact ⟨_, order?_reg n m c d⟩
          | mem tz b p d => exact ⟨_, order?_reg_mem n c tz b p d⟩
          | _ => cases hob
        | mem ty a o c =>
          cases b with
          | reg m d => exact ⟨_, order?_mem_reg ty a o c m d⟩
          | mem tz b p d =>
            obtain ⟨q, hq⟩ := joined_of_pairwise hpairs ha hb
            exact ⟨_, by rw [order?_mem, hq, Option.map_some]⟩
          | _ => cases hob
        | _ => cases hoa
      · cases herr.symm.trans h

/-- **Lists that are not sortable.** The failure is that of two members. -/
theorem exists_of_checkSortable {e : Error} (h : checkSortable es = .error e) :
    ∃ a ∈ es, ∃ b ∈ es, order a b = .error e := by
  cases es with
  | nil => cases h
  | cons first es =>
    rw [checkSortable] at h
    split at h
    · next f hf =>
      exact ⟨first, List.mem_cons_self, f, List.mem_of_find?_eq_some hf, discard_eq_error_iff.1 h⟩
    · rcases orderPairs_cases (bases (first :: es)) with ⟨hok, -⟩ | ⟨a, b, e', hsub, he, herr⟩
      · cases hok.symm.trans h
      · cases herr.symm.trans h
        obtain ⟨ty, o, c, ha⟩ := exists_mem_of_mem_bases (hsub.subset List.mem_cons_self)
        obtain ⟨tz, p, d, hb⟩ :=
          exists_mem_of_mem_bases (hsub.subset (List.mem_cons_of_mem _ List.mem_cons_self))
        have hne := List.pairwise_iff_forall_sublist.1 (pairwise_bases _) hsub
        refine ⟨_, ha, _, hb, ?_⟩
        rw [order_mem_of_base hne, he]
        rfl

/-- **The check passes** exactly the lists in which every two have an order. -/
theorem checkSortable_eq_ok_iff : checkSortable es = .ok () ↔ Comparable es := by
  refine ⟨comparable_of_checkSortable, fun h => ?_⟩
  cases hc : checkSortable es with
  | ok => rfl
  | error e =>
    obtain ⟨a, ha, b, hb, he⟩ := exists_of_checkSortable hc
    obtain ⟨o, ho⟩ := h a ha b hb
    cases ho.symm.trans he

/-! ### The list afterwards -/

/-- The first expression does not come behind the second one. Of two that have no order another
comparison has to tell. -/
def notBehindOr (other : Expr → Expr → Ordering) (e f : Expr) : Bool :=
  (order? e f).getD (other e f) != .gt

/-- Where there is an order, it tells. -/
theorem notBehindOr_of_order? {other : Expr → Expr → Ordering} {e f : Expr} {o : Ordering}
    (h : order? e f = some o) : notBehindOr other e f = (o != .gt) := by
  rw [notBehindOr, h, Option.getD_some]

/-- **No fallback.** Where every two members have an order, no other comparison is asked. -/
theorem mergeSort_notBehindOr (h : Comparable es) (other other' : Expr → Expr → Ordering) :
    es.mergeSort (notBehindOr other) = es.mergeSort (notBehindOr other') := by
  refine mergeSort_congr fun a ha b hb => ?_
  obtain ⟨o, ho⟩ := h a ha b hb
  rw [order_eq_ok_iff] at ho
  rw [notBehindOr_of_order? ho, notBehindOr_of_order? ho]

/-- So it is a total preorder of the list. -/
theorem Comparable.ranked (h : Comparable es) (other : Expr → Expr → Ordering) :
    Ranked (notBehindOr other) es where
  trans a ha b hb c hc hab hbc := by
    obtain ⟨o, ho⟩ := h a ha b hb
    obtain ⟨p, hp⟩ := h b hb c hc
    rw [order_eq_ok_iff] at ho hp
    rw [notBehindOr_of_order? ho, bne_iff_ne] at hab
    rw [notBehindOr_of_order? hp, bne_iff_ne] at hbc
    rw [notBehindOr_of_order? (order?_chain ho hp hab hbc)]
    cases o with
    | gt => exact absurd rfl hab
    | lt => rfl
    | eq => simpa using hbc
  total a ha b hb := by
    obtain ⟨o, ho⟩ := h a ha b hb
    rw [order_eq_ok_iff] at ho
    have hswap : order? b a = some o.swap := by rw [order?_swap a b, ho, Option.map_some]
    rw [notBehindOr_of_order? ho, notBehindOr_of_order? hswap]
    cases o <;> rfl

/-- Of two expressions that both do not come behind the other one none has a difference. -/
theorem same_of_order?_of_order? {a b : Expr} (hab : order? a b = some .lt ∨ order? a b = some .eq)
    (hba : order? b a = some .lt ∨ order? b a = some .eq) : a.same b = true := by
  rcases hab with hab | hab
  · rw [order?_swap a b, hab] at hba
    rcases hba with hba | hba <;> cases hba
  · exact same_of_order? hab

/-- **Ascending.** Every member has an order with those behind it, and is not above them. -/
def Ascending (es : List Expr) : Prop :=
  es.Pairwise fun a b => order a b = .ok .lt ∨ order a b = .ok .eq

/-- What is attached to the members does not count. -/
theorem ascending_iff : Ascending es ↔
    (es.map bare).Pairwise fun a b => order? a b = some .lt ∨ order? a b = some .eq := by
  simp only [Ascending, List.pairwise_map, order?_bare, order_eq_ok_iff]

/-- Two ascending lists of the same members are the same, one by one. -/
theorem Ascending.same_of_perm {es' : List Expr} (h : Ascending es) (h' : Ascending es')
    (hp : es.Perm es') : List.Forall₂ (fun a b => a.same b = true) es es' := by
  have hbare : es.map bare = es'.map bare := by
    refine List.Perm.eq_of_pairwise (fun a b ha hb hab hba => ?_) (ascending_iff.1 h)
      (ascending_iff.1 h') (hp.map bare)
    obtain ⟨x, -, rfl⟩ := List.mem_map.1 ha
    obtain ⟨y, -, rfl⟩ := List.mem_map.1 hb
    have hsame := same_iff_bare_eq.1 (same_of_order?_of_order? hab hba)
    rwa [bare_bare, bare_bare] at hsame
  have hmembers : List.Forall₂ (· = ·) (es.map bare) (es'.map bare) := List.forall₂_eq_eq_eq ▸ hbare
  rw [List.forall₂_map_left_iff, List.forall₂_map_right_iff] at hmembers
  exact hmembers.imp fun _ _ => same_iff_bare_eq.2

/-- **What is sorted is ascending.** -/
theorem Comparable.ascending_mergeSort (h : Comparable es) (other : Expr → Expr → Ordering) :
    Ascending (es.mergeSort (notBehindOr other)) := by
  refine (h.ranked other).pairwise_mergeSort.imp_of_mem fun {a b} ha hb hab => ?_
  obtain ⟨o, ho⟩ := h a (List.mem_mergeSort.1 ha) b (List.mem_mergeSort.1 hb)
  rw [notBehindOr_of_order? (order_eq_ok_iff.1 ho), bne_iff_ne] at hab
  cases o with
  | lt => exact .inl ho
  | eq => exact .inr ho
  | gt => exact absurd rfl hab

/-- Members that compare as equal to one expression keep their order. -/
theorem Comparable.filter_mergeSort (h : Comparable es)
    (other : Expr → Expr → Ordering) (e : Expr) :
    (es.mergeSort (notBehindOr other)).filter (fun f => order? e f == some .eq) =
      es.filter fun f => order? e f == some .eq := by
  refine (h.ranked other).filter_mergeSort fun a _ b _ hea heb => ?_
  have hae : order? a e = some .eq := by
    rw [order?_swap e a, beq_iff_eq.1 hea, Option.map_some]; rfl
  rw [notBehindOr_of_order? (order?_chain hae (beq_iff_eq.1 heb) nofun nofun)]
  rfl

/-- It does not matter in which order the members stand. -/
theorem Comparable.perm {es' : List Expr} (h : Comparable es) (hp : es'.Perm es) : Comparable es' :=
  fun a ha b hb => h a (hp.subset ha) b (hp.subset hb)

/-- **Sorted**, whatever is said of expressions without an order. -/
theorem sortInPlace_of_comparable (h : Comparable es) (other : Expr → Expr → Ordering) :
    sortInPlace es = (.ok (), es.mergeSort (notBehindOr other)) := by
  rw [sortInPlace, checkSortable_eq_ok_iff.2 h, mergeSort_notBehindOr h other fun _ _ => .eq]
  rfl

/-- **Refused.** Nothing is moved. -/
theorem sortInPlace_of_error {e : Error} (h : checkSortable es = .error e) :
    sortInPlace es = (.error e, es) := by
  rw [sortInPlace, h]

theorem sortInPlace_ok_iff {sorted : List Expr} : sortInPlace es = (.ok (), sorted) ↔
    Comparable es ∧ sorted = es.mergeSort (notBehindOr fun _ _ => .eq) := by
  cases hc : checkSortable es with
  | ok =>
    have h := checkSortable_eq_ok_iff.1 hc
    rw [sortInPlace_of_comparable h fun _ _ => .eq, Prod.mk.injEq]
    exact ⟨fun hs => ⟨h, hs.2.symm⟩, fun hs => ⟨rfl, hs.2.symm⟩⟩
  | error e =>
    rw [sortInPlace_of_error hc, Prod.mk.injEq]
    refine iff_of_false (fun h => nomatch h.1) fun h => ?_
    cases hc.symm.trans (checkSortable_eq_ok_iff.2 h.1)

/-- **Sorting is all or nothing.** It succeeds if and only if every two members of the list have an
order, and each of them has one with itself. The list is then a permutation that ascends, members
that compare as equal keep their order, and no other comparison is asked. Of any permutation of the
list the members come out in the same order, up to comments and radices. If sorting fails, the list
is as it was before, comments included, and the failure is that of comparing two of its members. -/
theorem sorting_all_or_nothing (es : List Expr) :
    ((∃ sorted, sortInPlace es = (.ok (), sorted)) ↔ ∀ a ∈ es, ∀ b ∈ es, ∃ o, order a b = .ok o) ∧
    (∀ sorted, sortInPlace es = (.ok (), sorted) →
      sorted.Perm es ∧
      (sorted.Pairwise fun a b => order a b = .ok .lt ∨ order a b = .ok .eq) ∧
      (∀ e, sorted.filter (fun f => order? e f == some .eq) =
        es.filter fun f => order? e f == some .eq) ∧
      (∀ other : Expr → Expr → Ordering,
        sorted = es.mergeSort fun a b => (order? a b).getD (other a b) != .gt) ∧
      ∀ es', es'.Perm es → ∃ sorted', sortInPlace es' = (.ok (), sorted') ∧
        List.Forall₂ (fun a b => a.same b = true) sorted' sorted) ∧
    (∀ e after, sortInPlace es = (.error e, after) →
      after = es ∧ ∃ a ∈ es, ∃ b ∈ es, order a b = .error e) ∧
    ∀ sorted, sort es = .ok sorted ↔ sortInPlace es = (.ok (), sorted) := by
  refine ⟨⟨fun ⟨sorted, h⟩ => (sortInPlace_ok_iff.1 h).1, fun h =>
    ⟨_, sortInPlace_of_comparable h fun _ _ => .eq⟩⟩, fun sorted h => ?_, fun e after h => ?_,
    fun sorted => ?_⟩
  · obtain ⟨hc, rfl⟩ := sortInPlace_ok_iff.1 h
    refine ⟨List.mergeSort_perm _ _, hc.ascending_mergeSort _, hc.filter_mergeSort _,
      mergeSort_notBehindOr hc _, fun es' hp => ?_⟩
    have hc' := hc.perm hp
    refine ⟨_, sortInPlace_of_comparable hc' fun _ _ => .eq, ?_⟩
    refine (hc'.ascending_mergeSort _).same_of_perm (hc.ascending_mergeSort _) ?_
    exact (List.mergeSort_perm _ _).trans (hp.trans (List.mergeSort_perm _ _).symm)
  · cases hc : checkSortable es with
    | ok =>
      rw [sortInPlace_of_comparable (checkSortable_eq_ok_iff.1 hc) fun _ _ => .eq,
        Prod.mk.injEq] at h
      exact nomatch h.1
    | error e' =>
      rw [sortInPlace_of_error hc, Prod.mk.injEq] at h
      obtain ⟨herr, rfl⟩ := h
      cases herr
      exact ⟨rfl, exists_of_checkSortable hc⟩
  · rw [sort]
    obtain ⟨result, after⟩ := sortInPlace es
    cases result with
    | ok => simp [Except.map]
    | error e => simp [Except.map]

/-- Registers and memory references, two of them through one constant that is written in two
ways. -/
def mixedOperands : List Expr :=
  [reg "r10", mem "u32" (value 5) 8 "late: ", reg "r2" "first: ", mem "u32" (value 5 .dec) 4,
    reg "r2" "second: "]

/-- The operands are sorted although the constant has no order. With the constant itself among them
they stay as they are. -/
theorem mixed_operands_sorted :
    (∃ sorted, sortInPlace mixedOperands = (.ok (), sorted) ∧
      List.Forall₂ (fun a b => a.same b = true) sorted
        [mem "u32" (value 5 .dec) 4, mem "u32" (value 5) 8 "late: ", reg "r2" "second: ",
          reg "r2" "first: ", reg "r10"] ∧
      sorted.filter (fun f => order? (reg "r2") f == some .eq) =
        [reg "r2" "first: ", reg "r2" "second: "]) ∧
    ∃ e, sortInPlace (mixedOperands ++ [value 5]) = (.error e, mixedOperands ++ [value 5]) := by
  constructor
  · have hdefined : ∀ a ∈ mixedOperands, ∀ b ∈ mixedOperands, (order? a b).isSome = true := by
      decide +kernel
    have hcomparable : ∀ a ∈ mixedOperands, ∀ b ∈ mixedOperands, ∃ o, order a b = .ok o := by
      intro a ha b hb
      obtain ⟨o, ho⟩ := Option.isSome_iff_exists.1 (hdefined a ha b hb)
      exact ⟨o, order_eq_ok_iff.2 ho⟩
    obtain ⟨hiff, hsorted, -⟩ := sorting_all_or_nothing mixedOperands
    obtain ⟨sorted, h⟩ := hiff.2 hcomparable
    obtain ⟨hperm, hascending, hstable, -⟩ := hsorted sorted h
    refine ⟨sorted, h, Ascending.same_of_perm hascending ?_ ?_, ?_⟩
    · rw [Ascending]
      decide +kernel
    · exact hperm.trans (by decide +kernel)
    · rw [hstable]
      decide +kernel
  · obtain ⟨hiff, -, hfails, -⟩ := sorting_all_or_nothing (mixedOperands ++ [value 5])
    have hmem : value 5 ∈ mixedOperands ++ [value 5] := List.mem_append_right _ List.mem_cons_self
    cases h : sortInPlace (mixedOperands ++ [value 5]) with
    | mk result after =>
      cases result with
      | ok =>
        obtain ⟨o, ho⟩ := hiff.1 ⟨after, h⟩ _ hmem _ hmem
        cases ho
      | error e => exact ⟨e, by rw [(hfails e after h).1]⟩

end Expr

end FlowText
