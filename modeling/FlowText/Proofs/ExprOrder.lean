import FlowText.Expr.Order
import FlowText.Proofs.NameOrder

/-!
# The order of expressions is partial

Two expressions are the same value if they are equal without their comments and radices
(`Expr.same_iff_bare_eq`), and their order is that of the bare expressions (`Expr.order?_bare`). So
the order does not tell apart what is the same, and where it finds no difference there is none.

The order of two memory references asks for an order of their bases only if these are not the same
(`Expr.baseOrder?`). A chain of comparisons that do not go down therefore has an order of its ends,
although the bases may have none (`Expr.order?_chain`).
-/

namespace FlowText

namespace Expr

/-! ### Bare expressions -/

/-- **Bare.** The expression without comments and with all constants in one radix, at any depth. -/
def bare : Expr → Expr
  | reg n _ => reg n
  | value w _ _ => value w
  | addr a _ => addr a
  | mem ty base o _ => mem ty base.bare o
  | synthetic n _ => synthetic n

theorem bare_bare (e : Expr) : e.bare.bare = e.bare := by
  induction e with
  | mem ty base o c ih => rw [bare, bare, ih]
  | _ => rfl

/-- **Same value.** Comments and radices are all that may be different. -/
theorem same_iff_bare_eq {a b : Expr} : a.same b = true ↔ a.bare = b.bare := by
  induction a generalizing b with
  | mem ty base o c ih =>
    cases b with
    | mem tz base' p d => simp [same, bare, ih, and_assoc]
    | _ => simp [same, bare]
  | _ => cases b <;> simp [same, bare]

theorem same_bare (a b : Expr) : a.bare.same b.bare = a.same b := by
  rw [Bool.eq_iff_iff, same_iff_bare_eq, same_iff_bare_eq, bare_bare, bare_bare]

/-! ### Kinds -/

theorem order_eq_ok_iff {a b : Expr} {o : Ordering} : order a b = .ok o ↔ order? a b = some o := by
  rw [order?]
  cases order a b <;> simp [Except.toOption]

theorem order?_eq_none_iff {a b : Expr} : order? a b = none ↔ ∃ e, order a b = .error e := by
  rw [order?]
  cases order a b <;> simp [Except.toOption]

/-- The order of two bases. Bases that are the same need none. -/
def baseOrder? (a b : Expr) : Option Ordering := if a.same b then some .eq else order? a b

/-- What is compared if the bases do not decide: the offsets, then the types. -/
def compareRest (ty tz : String) (o p : Int64) : Ordering :=
  (compare o.toInt p.toInt).then (compare ty tz)

theorem order?_reg (n m c d : String) : order? (reg n c) (reg m d) = some (natural n m) := rfl

theorem order?_mem (ty tz : String) (a b : Expr) (o p : Int64) (c d : String) :
    order? (mem ty a o c) (mem tz b p d) =
      (baseOrder? a b).map (·.then (compareRest ty tz o p)) := by
  rw [order?, order, baseOrder?, order?]
  split
  · rfl
  · cases order a b <;> rfl

/-- The words of the two kinds that are ordered. -/
theorem compare_kindNames :
    compare "MemoryRef" "Register" = .lt ∧ compare "Register" "MemoryRef" = .gt := by decide

theorem order?_mem_reg (ty : String) (a : Expr) (o : Int64) (c n d : String) :
    order? (mem ty a o c) (reg n d) = some .lt := by
  rw [order?, order, kindName, kindName, compare_kindNames.1]
  rfl

theorem order?_reg_mem (n d ty : String) (a : Expr) (o : Int64) (c : String) :
    order? (reg n d) (mem ty a o c) = some .gt := by
  rw [order?, order, kindName, kindName, compare_kindNames.2]
  rfl

/-- What has an order is a register or a memory reference. -/
theorem isOrdered_of_order? {a b : Expr} {o : Ordering} (h : order? a b = some o) :
    a.isOrdered = true ∧ b.isOrdered = true := by
  rw [← order_eq_ok_iff] at h
  cases a <;> cases b <;> first | exact ⟨rfl, rfl⟩ | cases h

/-! ### Both ways -/

theorem compareRest_swap (ty tz : String) (o p : Int64) :
    (compareRest ty tz o p).swap = compareRest tz ty p o := by
  rw [compareRest, compareRest, swap_then, ← Std.OrientedCmp.eq_swap, ← Std.OrientedCmp.eq_swap]

/-- The order from the other side. The induction goes down the bases. -/
theorem order?_swap (a b : Expr) : order? b a = (order? a b).map Ordering.swap := by
  induction a generalizing b with
  | reg n c =>
    cases b with
    | reg m d => exact congrArg some (natural_swap n m).symm
    | mem ty b o d =>
      rw [order?_mem_reg, order?_reg_mem]
      rfl
    | _ => rfl
  | mem ty a o c ih =>
    cases b with
    | reg m d =>
      rw [order?_mem_reg, order?_reg_mem]
      rfl
    | mem tz b p d =>
      have hbase : baseOrder? b a = (baseOrder? a b).map Ordering.swap := by
        have hsame : b.same a = a.same b := by
          rw [Bool.eq_iff_iff, same_iff_bare_eq, same_iff_bare_eq, eq_comm]
        rw [baseOrder?, baseOrder?, hsame, ih]
        split <;> rfl
      rw [order?_mem, order?_mem, hbase, ← compareRest_swap]
      cases baseOrder? a b with
      | none => rfl
      | some q => exact congrArg some (swap_then q _).symm
    | _ => rfl
  | _ => cases b <;> rfl

/-! ### Order and equality -/

theorem compareRest_eq_iff {ty tz : String} {o p : Int64} :
    compareRest ty tz o p = .eq ↔ o = p ∧ ty = tz := by
  rw [compareRest, Ordering.then_eq_eq, Std.compare_eq_iff_eq, Std.compare_eq_iff_eq,
    Int64.toInt_inj]

/-- **No difference.** What compares as equal is the same. -/
theorem same_of_order? {a b : Expr} (h : order? a b = some .eq) : a.same b = true := by
  induction a generalizing b with
  | reg n c =>
    cases b with
    | reg m d => exact beq_iff_eq.2 (eq_of_natural_eq (Option.some.inj h))
    | mem ty b o d => cases (order?_reg_mem n c ty b o d).symm.trans h
    | _ => cases h
  | mem ty a o c ih =>
    cases b with
    | reg m d => cases (order?_mem_reg ty a o c m d).symm.trans h
    | mem tz b p d =>
      rw [order?_mem] at h
      obtain ⟨q, hq, heq⟩ := Option.map_eq_some_iff.1 h
      obtain ⟨rfl, hrest⟩ := Ordering.then_eq_eq.1 heq
      obtain ⟨rfl, rfl⟩ := compareRest_eq_iff.1 hrest
      have hbase : a.same b = true := by
        rw [baseOrder?] at hq
        split at hq
        · assumption
        · exact ih hq
      simp [same, hbase]
    | _ => cases h
  | _ => cases b <;> cases h

/-- What is the same compares as equal, if it is of a kind that is ordered. -/
theorem order?_of_same {a b : Expr} (h : a.same b = true) (ha : a.isOrdered = true) :
    order? a b = some .eq := by
  cases a with
  | reg n c =>
    cases b with
    | reg m d =>
      obtain rfl : n = m := beq_iff_eq.1 h
      rw [order?_reg, natural_self]
    | _ => cases h
  | mem ty a o c =>
    cases b with
    | mem tz b p d =>
      simp only [same, Bool.and_eq_true, beq_iff_eq] at h
      obtain ⟨⟨rfl, hbase⟩, rfl⟩ := h
      rw [order?_mem, baseOrder?, if_pos hbase, Option.map_some, compareRest_eq_iff.2 ⟨rfl, rfl⟩]
      rfl
    | _ => cases h
  | _ => cases ha

/-- **Bare.** The order is that of the bare expressions. -/
theorem order?_bare (a b : Expr) : order? a.bare b.bare = order? a b := by
  induction a generalizing b with
  | mem ty a o c ih =>
    cases b with
    | reg m d => rw [bare, bare, order?_mem_reg, order?_mem_reg]
    | mem tz b p d =>
      rw [bare, bare, order?_mem, order?_mem, baseOrder?, baseOrder?, same_bare, ih]
    | _ => rfl
  | reg n c =>
    cases b with
    | mem ty b o d => rw [bare, bare, order?_reg_mem, order?_reg_mem]
    | _ => rfl
  | _ => cases b <;> rfl

theorem order?_congr {a a' b b' : Expr} (ha : a.same a' = true) (hb : b.same b' = true) :
    order? a b = order? a' b' := by
  rw [← order?_bare, same_iff_bare_eq.1 ha, same_iff_bare_eq.1 hb, order?_bare]

/-! ### Chains -/

theorem chains_compareRest (ty tz tu : String) (o p q : Int64) :
    Chains (compareRest ty tz o p) (compareRest tz tu p q) (compareRest ty tu o q) :=
  (chains_of_transCmp _ _ _).then (chains_of_transCmp _ _ _)

theorem baseOrder?_bare (a b : Expr) : baseOrder? a.bare b.bare = baseOrder? a b := by
  rw [baseOrder?, baseOrder?, same_bare, order?_bare]

/-- A chain of bases, if the order has chains below them. Two of the bases may be the same without
having an order, and then the third one compares with both alike. -/
theorem baseOrder?_chain {a b c : Expr} {o p : Ordering}
    (hchain : order? a b = some o → order? b c = some p → order? a c = some (o.then p))
    (hab : baseOrder? a b = some o) (hbc : baseOrder? b c = some p) :
    baseOrder? a c = some (o.then p) := by
  by_cases h₁ : a.same b = true
  · have hac : baseOrder? a c = baseOrder? b c := by
      rw [← baseOrder?_bare, same_iff_bare_eq.1 h₁, baseOrder?_bare]
    rw [baseOrder?, if_pos h₁] at hab
    cases hab
    rw [hac, hbc]
    rfl
  by_cases h₂ : b.same c = true
  · have hac : baseOrder? a c = baseOrder? a b := by
      rw [← baseOrder?_bare, ← same_iff_bare_eq.1 h₂, baseOrder?_bare]
    rw [baseOrder?, if_pos h₂] at hbc
    cases hbc
    rw [hac, hab]
    cases o <;> rfl
  rw [baseOrder?, if_neg h₁] at hab
  rw [baseOrder?, if_neg h₂] at hbc
  have hac := hchain hab hbc
  rw [baseOrder?]
  split
  · next h₃ =>
    rw [← hac]
    exact (order?_of_same h₃ (isOrdered_of_order? hab).1).symm
  · exact hac

/-- **Chains.** The induction is on the expression in the middle. -/
theorem order?_chain {a b c : Expr} {o p : Ordering} (hab : order? a b = some o)
    (hbc : order? b c = some p) (ho : o ≠ .gt) (hp : p ≠ .gt) : order? a c = some (o.then p) := by
  induction b generalizing a c o p with
  | reg m d =>
    cases c with
    | reg k e =>
      cases a with
      | reg n d' =>
        cases hab
        cases hbc
        exact congrArg some (chains_natural n m k ho hp)
      | mem ty a i d' =>
        rw [order?_mem_reg] at hab ⊢
        cases hab
        rfl
      | _ => cases hab
    | mem ty c i e =>
      -- a memory reference does not stand behind a register
      rw [order?_reg_mem] at hbc
      cases hbc
      exact absurd rfl hp
    | _ => cases hbc
  | mem ty b j d ih =>
    cases a with
    | reg n d' =>
      rw [order?_reg_mem] at hab
      cases hab
      exact absurd rfl ho
    | mem ty' a i d' =>
      cases c with
      | reg k e =>
        rw [order?_mem_reg] at hbc ⊢
        cases hbc
        cases o with
        | gt => exact absurd rfl ho
        | _ => rfl
      | mem ty'' c k e =>
        rw [order?_mem] at hab hbc ⊢
        obtain ⟨o', hab', rfl⟩ := Option.map_eq_some_iff.1 hab
        obtain ⟨p', hbc', rfl⟩ := Option.map_eq_some_iff.1 hbc
        have ho' : o' ≠ .gt := by
          rintro rfl
          exact ho rfl
        have hp' : p' ≠ .gt := by
          rintro rfl
          exact hp rfl
        have hbase := baseOrder?_chain (fun h h' => ih h h' ho' hp') hab' hbc'
        have hbases : Chains o' p' (o'.then p') := fun _ _ => rfl
        rw [hbase]
        exact congrArg some (hbases.then (chains_compareRest ty' ty ty'' i j k) ho hp)
      | _ => cases hbc
    | _ => cases hab
  | _ => cases c <;> cases hbc

/-- **A partial order that matches equality.** The order of two expressions is the reverse of the
order from the other side, and where one is not defined the other is not. Expressions that compare
as equal are the same, and registers and memory references that are the same compare as equal. If
two comparisons in a row do not go down, the ends have an order, which does not go down and goes up
if one of the two does. What is the same has the same order with everything; to be the same is to be
equal up to comments and radices. -/
theorem order_matches_equality (a b c : Expr) :
    (∀ o, order a b = .ok o ↔ order b a = .ok o.swap) ∧
    (∀ o, order? a b = some o ↔ order a b = .ok o) ∧
    (order? a b = none ↔ ∃ e, order a b = .error e) ∧
    (order a b = .ok .eq → a.same b = true) ∧
    (a.same b = true → a.isOrdered = true → order a b = .ok .eq) ∧
    (∀ o p, order a b = .ok o → order b c = .ok p → o ≠ .gt → p ≠ .gt →
      ∃ q, order a c = .ok q ∧ q ≠ .gt ∧ (o = .lt ∨ p = .lt → q = .lt)) ∧
    (∀ a' b', a.same a' = true → b.same b' = true → ∀ o, order a b = .ok o ↔ order a' b' = .ok o) ∧
    (a.same b = true ↔ a.bare = b.bare) := by
  refine ⟨fun o => ?_, fun o => order_eq_ok_iff.symm, order?_eq_none_iff,
    fun h => ?_, fun h ha => ?_,
    fun o p hab hbc ho hp => ?_, fun a' b' ha hb o => ?_, same_iff_bare_eq⟩
  · rw [order_eq_ok_iff, order_eq_ok_iff, order?_swap a b, Option.map_eq_some_iff]
    constructor
    · intro h
      exact ⟨o, h, rfl⟩
    · rintro ⟨p, hp, hswap⟩
      rwa [← Ordering.swap_inj.1 hswap]
  · exact same_of_order? (order_eq_ok_iff.1 h)
  · exact order_eq_ok_iff.2 (order?_of_same h ha)
  · have hac := order?_chain (order_eq_ok_iff.1 hab) (order_eq_ok_iff.1 hbc) ho hp
    refine ⟨o.then p, order_eq_ok_iff.2 hac, ?_⟩
    revert ho hp
    cases o <;> cases p <;> decide
  · rw [order_eq_ok_iff, order_eq_ok_iff, order?_congr ha hb]

/-- Memory references through one constant, which has no order with itself. The constant is written
in another way in between, and the offsets go up. -/
theorem offsets_ordered :
    let first := mem "u8" (value 5) 0
    let second := mem "u8" (value 5 .dec "five: ") 4
    let third := mem "u8" (value 5) 8
    order? (value 5) (value 5) = none ∧ order first second = .ok .lt ∧
    order second third = .ok .lt ∧ order first third = .ok .lt := by
  intro first second third
  have hab : order first second = .ok .lt := by decide +kernel
  have hbc : order second third = .ok .lt := by decide +kernel
  obtain ⟨-, -, -, -, -, hchain, -⟩ := order_matches_equality first second third
  obtain ⟨q, hac, -, hlt⟩ := hchain .lt .lt hab hbc (by decide) (by decide)
  refine ⟨rfl, hab, hbc, ?_⟩
  rw [hac, hlt (.inl rfl)]

end Expr

end FlowText
