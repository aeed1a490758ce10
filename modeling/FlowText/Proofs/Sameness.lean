import FlowText.Inst.Form
import FlowText.Proofs.ExprOrder

/-!
# What is the same

Two values are the same if only attached information tells them apart: comments and radices at any
depth, and the address, the notes and the history of an instruction. Without it they are equal
(`Cond.same_iff_bare_eq`, `Arg.same_iff_bare_eq`, `Inst.same_iff_bare_eq`).

Whatever is asked of a value may as well be asked of its bare form: the answer is the bare form of
the answer (`Expr.reg?_bare`, `Cond.negate_bare`, `Arg.uses_bare`, `Operation.validate_bare`). So
what is the same gives answers that are the same (`same_is_bare_equality`).
-/

namespace FlowText

/-! ### Lists and tests -/

/-- A test that compares images is an equivalence. -/
theorem equivalence_of_iff {α β : Type} {test : α → α → Bool} {image : α → β}
    (h : ∀ a b, test a b = true ↔ image a = image b) : Equivalence fun a b => test a b = true where
  refl a := (h a a).2 rfl
  symm hab := (h _ _).2 ((h _ _).1 hab).symm
  trans hab hbc := (h _ _).2 (((h _ _).1 hab).trans ((h _ _).1 hbc))

/-- Lists pass a test item by item if their images are equal. -/
theorem isEqv_iff_map_eq {α β : Type} {test : α → α → Bool} {image : α → β}
    (h : ∀ a b, test a b = true ↔ image a = image b) {l m : List α} :
    l.isEqv m test = true ↔ l.map image = m.map image := by
  induction l generalizing m with
  | nil => cases m <;> simp [List.isEqv]
  | cons a l ih =>
    cases m with
    | nil => simp [List.isEqv]
    | cons b m => simp [List.isEqv, h, ih]

/-- Destinations are the same if their bare forms are equal, or if both are left out. -/
theorem sameDest_iff_map_eq {d e : Option Expr} :
    sameDest d e = true ↔ d.map Expr.bare = e.map Expr.bare := by
  cases d <;> cases e <;> simp [sameDest, Expr.same_iff_bare_eq]

/-! ### Expressions -/

namespace Expr

theorem ctorIdx_bare (e : Expr) : e.bare.ctorIdx = e.ctorIdx := by cases e <;> rfl

theorem isReg_bare (e : Expr) : e.bare.isReg = e.isReg := by cases e <;> rfl

theorem isSynthetic_bare (e : Expr) : e.bare.isSynthetic = e.isSynthetic := by cases e <;> rfl

theorem name?_bare (e : Expr) : e.bare.name? = e.name? := by cases e <;> rfl

theorem value?_bare (e : Expr) : e.bare.value? = e.value? := by cases e <;> rfl

/-- The register of an access is found at the same place. -/
theorem reg?_bare (e : Expr) : e.bare.reg? = e.reg?.map bare := by
  cases e with
  | mem ty base o c =>
    rw [bare, reg?, reg?, isReg_bare]
    split <;> rfl
  | _ => rfl

/-- **A comment is attached.** It stands in front of the text, and no other value comes of it. -/
theorem same_withComment (e : Expr) (c : String) :
    (e.withComment c).same e = true ∧
      (e.withComment c).text = c ++ (e.withComment "").text := by
  refine ⟨same_iff_bare_eq.2 ?_, ?_⟩
  · cases e <;> rfl
  · cases e <;> simp [withComment, text, String.append_assoc]

theorem regName?_bare (e : Expr) : e.bare.regName? = e.regName? := by
  rw [regName?, regName?, reg?_bare]
  cases e.reg? with
  | none => rfl
  | some r => exact r.name?_bare

end Expr

/-! ### Conditions -/

mutual

/-- The condition over bare operands. -/
def Cond.bare : Cond → Cond
  | .simple lhs op rhs => .simple lhs.bare op rhs.bare
  | .compound chain => .compound chain.bare

/-- The chain over bare operands. -/
def Chain.bare : Chain → Chain
  | .single c => .single c.bare
  | .join chain op c => .join chain.bare op c.bare

end

mutual

/-- **Conditions** are the same if their bare forms are equal. -/
theorem Cond.same_iff_bare_eq (c d : Cond) : c.same d = true ↔ c.bare = d.bare := by
  match c, d with
  | .simple a op b, .simple a' op' b' =>
    simp [Cond.same, Cond.bare, Expr.same_iff_bare_eq, and_assoc]
  | .compound x, .compound y => simp [Cond.same, Cond.bare, x.same_iff_bare_eq y]
  | .simple .., .compound _ => simp [Cond.same, Cond.bare]
  | .compound _, .simple .. => simp [Cond.same, Cond.bare]

/-- **Chains** are the same if their bare forms are equal. -/
theorem Chain.same_iff_bare_eq (x y : Chain) : x.same y = true ↔ x.bare = y.bare := by
  match x, y with
  | .single c, .single d => simp [Chain.same, Chain.bare, c.same_iff_bare_eq d]
  | .join x op c, .join y op' d =>
    simp [Chain.same, Chain.bare, x.same_iff_bare_eq y, c.same_iff_bare_eq d, and_assoc]
  | .single _, .join .. => simp [Chain.same, Chain.bare]
  | .join .., .single _ => simp [Chain.same, Chain.bare]

end

mutual

/-- The complement does not see what is attached. -/
theorem Cond.negate_bare (c : Cond) : c.bare.negate = c.negate.bare := by
  match c with
  | .simple lhs op rhs => simp [Cond.bare, Cond.negate]
  | .compound chain => rw [Cond.bare, Cond.negate, Cond.negate, Cond.bare, chain.negate_bare]

theorem Chain.negate_bare (chain : Chain) : chain.bare.negate = chain.negate.bare := by
  match chain with
  | .single c => rw [Chain.bare, Chain.negate, Chain.negate, Chain.bare, c.negate_bare]
  | .join chain op c =>
    rw [Chain.bare, Chain.negate, Chain.negate, Chain.bare, chain.negate_bare, c.negate_bare]

end

mutual

/-- The operands of the bare condition are the bare operands. -/
theorem Cond.exprs_bare (c : Cond) : c.bare.exprs = c.exprs.map Expr.bare := by
  match c with
  | .simple lhs op rhs => simp [Cond.bare, Cond.exprs]
  | .compound chain => rw [Cond.bare, Cond.exprs, Cond.exprs, chain.exprs_bare]

theorem Chain.exprs_bare (chain : Chain) : chain.bare.exprs = chain.exprs.map Expr.bare := by
  match chain with
  | .single c => rw [Chain.bare, Chain.exprs, Chain.exprs, c.exprs_bare]
  | .join chain op c =>
    rw [Chain.bare, Chain.exprs, Chain.exprs, chain.exprs_bare, c.exprs_bare, List.map_append]

end

/-- A simple condition stays simple, and a compound one stays compound. -/
theorem Cond.ctorIdx_bare (c : Cond) : c.bare.ctorIdx = c.ctorIdx := by
  cases c <;> rfl

/-! ### Arguments -/

namespace Arg

/-- The argument with bare operands. Text is part of the value. -/
def bare : Arg → Arg
  | expr e => expr e.bare
  | cond c => cond c.bare
  | verbatim t => verbatim t

/-- **Arguments** are the same if their bare forms are equal. -/
theorem same_iff_bare_eq (a b : Arg) : a.same b = true ↔ a.bare = b.bare := by
  cases a <;> cases b <;> simp [same, bare, Expr.same_iff_bare_eq, Cond.same_iff_bare_eq]

theorem ctorIdx_bare (a : Arg) : a.bare.ctorIdx = a.ctorIdx := by cases a <;> rfl

/-- A bare argument uses the bare values. -/
theorem uses_bare (a : Arg) : a.bare.uses = a.uses.map Expr.bare := by
  cases a with
  | expr e =>
    rw [bare, uses, uses, Expr.isSynthetic_bare]
    split <;> rfl
  | cond c => exact c.exprs_bare
  | verbatim t => rfl

end Arg

/-! ### Instructions -/

theorem ascending_nil : ([] : List (String × String)).Pairwise fun a b => a.1 < b.1 := .nil

/-- The opcode over bare operands, without address and notes. -/
def Operation.bare (o : Operation) : Operation where
  dest := o.dest.map Expr.bare
  op := o.op
  args := o.args.map Arg.bare
  notes := ⟨[], ascending_nil⟩

/-- The shape rules count arguments and ask whether one is text, so they do not see what is
attached. -/
theorem Operation.validate_bare (o : Operation) : o.bare.validate = o.validate := by
  obtain ⟨dest, op, args, addr, notes⟩ := o
  cases op with
  | ret => rfl
  | named name => rfl
  | goto | call | synthetic => cases args <;> rfl
  | literal =>
    cases dest with
    | some d => rfl
    | none =>
      rcases args with _ | ⟨a, _ | ⟨b, args⟩⟩
      · rfl
      · cases a <;> rfl
      · simp [validate, bare, form]
  | assign =>
    cases dest with
    | none => simp [validate, bare, form]
    | some d =>
      rcases args with _ | ⟨a, _ | ⟨b, args⟩⟩
      · rfl
      · rfl
      · simp [validate, bare, form]
  | binary op =>
    cases dest with
    | none => rfl
    | some d =>
      rcases args with _ | ⟨a, _ | ⟨b, _ | ⟨c, args⟩⟩⟩
      · rfl
      · rfl
      · rfl
      · simp [validate, bare, form]

namespace Inst

/-- **Bare.** The instruction without attached information: no address, no notes and no history, and
operands without comments and with all constants in one radix. -/
def bare (i : Inst) : Inst := { i.toOperation.bare with origins := [] }

/-- **Instructions** are the same if their bare forms are equal. -/
theorem same_iff_bare_eq (i j : Inst) : i.same j = true ↔ i.bare = j.bare := by
  rw [same, Bool.and_eq_true, Bool.and_eq_true, beq_iff_eq, sameDest_iff_map_eq,
    isEqv_iff_map_eq Arg.same_iff_bare_eq]
  constructor
  · rintro ⟨⟨hop, hdest⟩, hargs⟩
    rw [bare, bare, Operation.bare, Operation.bare, hop, hdest, hargs]
  · intro h
    exact ⟨⟨congrArg (·.op) h, congrArg (·.dest) h⟩, congrArg (·.args) h⟩

/-- A bare instruction uses the bare values. -/
theorem uses_bare (i : Inst) : i.bare.uses = i.uses.map Expr.bare := by
  change (i.args.map Arg.bare).flatMap Arg.uses = (i.args.flatMap Arg.uses).map Expr.bare
  rw [List.flatMap_map, List.map_flatMap, funext Arg.uses_bare]

/-- A check of the shape says the same of the bare instruction. -/
theorem validate_bare (i : Inst) : i.bare.validate = i.validate := i.toOperation.validate_bare

end Inst

/-! ### What is the same cannot be told apart -/

/-- **To be the same is to be equal up to attached information.** Expressions, conditions, arguments
and instructions are the same if and only if their bare forms are equal. So this is an equivalence,
and values of different kinds are never the same. What is the same gives the same answers:
conditions have complements and operands that are the same, expressions give the same register,
register name and number, and instructions read and define the same operands and keep or break the
same shape rule. -/
theorem same_is_bare_equality :
    ((∀ a b : Expr, a.same b = true ↔ a.bare = b.bare) ∧
      (∀ c d : Cond, c.same d = true ↔ c.bare = d.bare) ∧
      (∀ a b : Arg, a.same b = true ↔ a.bare = b.bare) ∧
      ∀ i j : Inst, i.same j = true ↔ i.bare = j.bare) ∧
    ((Equivalence fun a b : Expr => a.same b = true) ∧
      (Equivalence fun c d : Cond => c.same d = true) ∧
      (Equivalence fun a b : Arg => a.same b = true) ∧
      Equivalence fun i j : Inst => i.same j = true) ∧
    (∀ a b : Expr, a.same b = true → a.ctorIdx = b.ctorIdx ∧ sameDest a.reg? b.reg? = true ∧
      a.regName? = b.regName? ∧ a.value? = b.value?) ∧
    (∀ c d : Cond, c.same d = true → c.ctorIdx = d.ctorIdx ∧ c.negate.same d.negate = true ∧
      c.exprs.isEqv d.exprs Expr.same = true) ∧
    (∀ a b : Arg, a.same b = true → a.ctorIdx = b.ctorIdx) ∧
    ∀ i j : Inst, i.same j = true → i.op = j.op ∧ i.uses.isEqv j.uses Expr.same = true ∧
      sameDest i.dest j.dest = true ∧ i.validate = j.validate := by
  have hexpr : ∀ a b : Expr, a.same b = true ↔ a.bare = b.bare := fun _ _ => Expr.same_iff_bare_eq
  refine ⟨⟨hexpr, Cond.same_iff_bare_eq, Arg.same_iff_bare_eq, Inst.same_iff_bare_eq⟩,
    ⟨equivalence_of_iff hexpr, equivalence_of_iff Cond.same_iff_bare_eq,
      equivalence_of_iff Arg.same_iff_bare_eq, equivalence_of_iff Inst.same_iff_bare_eq⟩,
    fun a b h => ?_, fun c d h => ?_, fun a b h => ?_, fun i j h => ?_⟩
  · rw [hexpr] at h
    rw [sameDest_iff_map_eq, ← a.ctorIdx_bare, ← a.reg?_bare, ← a.regName?_bare, ← a.value?_bare, h,
      b.ctorIdx_bare, b.reg?_bare, b.regName?_bare, b.value?_bare]
    exact ⟨rfl, rfl, rfl, rfl⟩
  · rw [Cond.same_iff_bare_eq] at h ⊢
    rw [isEqv_iff_map_eq hexpr, ← c.ctorIdx_bare, ← c.negate_bare, ← c.exprs_bare,
      h, d.ctorIdx_bare, d.negate_bare, d.exprs_bare]
    exact ⟨rfl, rfl, rfl⟩
  · rw [Arg.same_iff_bare_eq] at h
    rw [← a.ctorIdx_bare, h, b.ctorIdx_bare]
  · rw [Inst.same_iff_bare_eq] at h
    rw [isEqv_iff_map_eq hexpr, sameDest_iff_map_eq, ← i.uses_bare,
      ← i.validate_bare, h, j.uses_bare, j.validate_bare]
    exact ⟨congrArg (·.op) h, rfl, congrArg (·.dest) h, rfl⟩

/-- A trap whose condition has an operand inside a memory reference of a compound condition. -/
def guardedTrap (base : Expr) : Inst :=
  .named none "trap" [.cond (.compound (.join (.single (.compound (.single
    (.simple (.mem "u32" base 4) .lt (.reg "r1"))))) .and (.simple (.reg "r2") .eq base)))]

/-- A comment and a radix do not count, however deep they are hidden. -/
theorem hidden_comment_is_attached :
    guardedTrap (.value 16) ≠ guardedTrap (.value 16 .dec "n: ") ∧
      (guardedTrap (.value 16)).same (guardedTrap (.value 16 .dec "n: ")) = true ∧
      (guardedTrap (.value 16)).uses.isEqv (guardedTrap (.value 16 .dec "n: ")).uses Expr.same =
        true := by
  obtain ⟨⟨-, -, -, hsame⟩, -, -, -, -, hanswers⟩ := same_is_bare_equality
  have h : (guardedTrap (.value 16)).same (guardedTrap (.value 16 .dec "n: ")) = true :=
    (hsame _ _).2 rfl
  exact ⟨by decide, h, (hanswers _ _ h).2.1⟩

end FlowText
