import FlowText.Expr.Read
import Mathlib

/-!
# Lists of results

What may fail is done with the items of a list in turn. It gives the results of all of them, or the
error of the first item that is refused (`mapM_eq_ok_iff`, `mapM_eq_error_iff`). Where only the
failure is of interest, the results are discarded: work that is done item by item, and for each item
part by part, fails as its parts do (`FailsAs`).
-/

namespace FlowText

/-! ### Results of all items -/

theorem mapM_eq_ok_iff {ε α β : Type} {f : α → Except ε β} {l : List α} {ys : List β} :
    l.mapM f = .ok ys ↔ List.Forall₂ (fun x y => f x = .ok y) l ys := by
  induction l generalizing ys with
  | nil =>
    rw [List.mapM_nil, List.forall₂_nil_left_iff]
    exact ⟨fun h => (Except.ok.inj h).symm, fun h => h ▸ rfl⟩
  | cons x l ih =>
    rw [List.mapM_cons]
    constructor
    · intro h
      obtain ⟨y, hy, hrest⟩ := ok_of_bind h
      obtain ⟨ys', hys, heq⟩ := ok_of_bind hrest
      cases heq
      exact .cons hy (ih.1 hys)
    · intro h
      cases h with
      | cons hy hys => rw [hy, ih.2 hys]; rfl

/-- The first item that fails makes the list fail. -/
theorem mapM_eq_error_iff {ε α β : Type} {f : α → Except ε β} {l : List α} {e : ε} :
    l.mapM f = .error e ↔ ∃ before x after, l = before ++ x :: after ∧
      (∀ y ∈ before, ∃ z, f y = .ok z) ∧ f x = .error e := by
  induction l with
  | nil => simp [List.mapM_nil, pure, Except.pure]
  | cons x l ih =>
    rw [List.mapM_cons]
    cases hx : f x with
    | error d =>
      constructor
      · intro h
        cases h
        exact ⟨[], x, l, rfl, fun y hy => absurd hy List.not_mem_nil, hx⟩
      · rintro ⟨before, y, after, hl, hok, hy⟩
        cases before with
        | nil =>
          cases hl
          cases hx.symm.trans hy
          rfl
        | cons z before =>
          cases hl
          obtain ⟨w, hw⟩ := hok x List.mem_cons_self
          cases hw.symm.trans hx
    | ok z =>
      have hrest : (do let ys ← l.mapM f; pure (z :: ys) : Except ε (List β)) = .error e ↔
          l.mapM f = .error e := by
        cases l.mapM f <;> simp [bind, Except.bind, pure, Except.pure]
      refine hrest.trans (ih.trans ?_)
      constructor
      · rintro ⟨before, y, after, rfl, hok, hy⟩
        exact ⟨x :: before, y, after, rfl, List.forall_mem_cons.2 ⟨⟨z, hx⟩, hok⟩, hy⟩
      · rintro ⟨before, y, after, hl, hok, hy⟩
        cases before with
        | nil =>
          cases hl
          cases hx.symm.trans hy
        | cons w before =>
          cases hl
          exact ⟨before, y, after, rfl, (List.forall_mem_cons.1 hok).2, hy⟩

theorem mapM_congr_of_mem {ε α β : Type} {f f' : α → Except ε β} {l : List α}
    (h : ∀ a ∈ l, f a = f' a) : l.mapM f = l.mapM f' := by
  induction l with
  | nil => rfl
  | cons a l ih =>
    obtain ⟨ha, hl⟩ := List.forall_mem_cons.1 h
    rw [List.mapM_cons, List.mapM_cons, ha, ih hl]

/-- What is done with each result. -/
theorem mapM_map_result {ε α β γ : Type} (f : α → Except ε β) (k : β → γ) (l : List α) :
    l.mapM (fun a => (f a).map k) = (l.mapM f).map (List.map k) := by
  induction l with
  | nil => rfl
  | cons a l ih =>
    rw [List.mapM_cons, List.mapM_cons, ih]
    cases f a with
    | error e => rfl
    | ok b => cases l.mapM f <;> rfl

theorem exists_mem_of_forall₂ {α β : Type} {R : α → β → Prop} {l : List α} {m : List β}
    (h : List.Forall₂ R l m) {a : α} (ha : a ∈ l) : ∃ b ∈ m, R a b := by
  induction h with
  | nil => exact absurd ha List.not_mem_nil
  | cons hab _ ih =>
    rcases List.mem_cons.1 ha with rfl | ha
    · exact ⟨_, List.mem_cons_self, hab⟩
    · obtain ⟨b, hb, hR⟩ := ih ha
      exact ⟨b, List.mem_cons_of_mem _ hb, hR⟩

theorem map_eq_map_of_forall₂ {α β γ : Type} {R : α → β → Prop} {f : α → γ} {f' : β → γ}
    {l : List α} {m : List β} (h : List.Forall₂ R l m) (hR : ∀ a b, R a b → f a = f' b) :
    l.map f = m.map f' := by
  rw [← List.forall₂_eq_eq_eq, List.forall₂_map_left_iff, List.forall₂_map_right_iff]
  exact h.imp hR

/-! ### Discarded results -/

theorem discard_eq_ok_iff {ε α : Type} {x : Except ε α} : discard x = .ok () ↔ ∃ a, x = .ok a := by
  cases x with
  | ok a => exact iff_of_true rfl ⟨a, rfl⟩
  | error e => exact iff_of_false nofun nofun

theorem discard_eq_error_iff {ε α : Type} {x : Except ε α} {e : ε} :
    discard x = .error e ↔ x = .error e := by
  cases x with
  | ok a => exact iff_of_false nofun nofun
  | error e' =>
    exact ⟨fun h => congrArg _ (Except.error.inj h), fun h => congrArg _ (Except.error.inj h)⟩

/-- Either nothing is refused, or one of the items is. -/
theorem forM_discard {ε α β : Type} (f : α → Except ε β) (l : List α) :
    (l.forM (fun a => discard (f a)) = .ok () ∧ ∀ a ∈ l, ∃ b, f a = .ok b) ∨
      ∃ a ∈ l, ∃ e, f a = .error e ∧ l.forM (fun a => discard (f a)) = .error e := by
  induction l with
  | nil => exact .inl ⟨rfl, fun _ ha => absurd ha List.not_mem_nil⟩
  | cons a l ih =>
    rw [List.forM_eq_forM, List.forM_cons]
    cases ha : f a with
    | error e => exact .inr ⟨a, List.mem_cons_self, e, ha, rfl⟩
    | ok b =>
      rcases ih with ⟨hok, hall⟩ | ⟨a', ha', e, he, herr⟩
      · exact .inl ⟨hok, List.forall_mem_cons.2 ⟨⟨b, ha⟩, hall⟩⟩
      · exact .inr ⟨a', List.mem_cons_of_mem _ ha', e, he, herr⟩

/-- **Fails as.** The work fails with the error of the first item that is refused, and if there is
none it gives a result. -/
def FailsAs {ε α β γ : Type} (r : Except ε α) (f : β → Except ε γ) (items : List β) : Prop :=
  discard r = items.forM fun b => discard (f b)

namespace FailsAs

variable {ε α α' β β' γ γ' : Type}

theorem of_ok (a : α) (f : β → Except ε γ) : FailsAs (.ok a) f [] := rfl

theorem map {r : Except ε α} {f : β → Except ε γ} {items : List β}
    (h : FailsAs r f items) (k : α → α') : FailsAs (r.map k) f items := by
  cases r <;> exact h

/-- What is done with each item in turn. -/
theorem mapM (f : β → Except ε γ) (items : List β) : FailsAs (items.mapM f) f items := by
  rw [FailsAs, List.forM_eq_forM]
  induction items with
  | nil => rfl
  | cons b items ih =>
    rw [List.mapM_cons, List.forM_cons, ← ih]
    cases f b with
    | error e => rfl
    | ok c => cases items.mapM f <;> rfl

/-- Items that fail as their parts do. -/
theorem flatMap {r : Except ε α} {f : β → Except ε γ} {items : List β} (h : FailsAs r f items)
    {f' : β' → Except ε γ'} {parts : β → List β'} (hf : ∀ b, FailsAs (f b) f' (parts b)) :
    FailsAs r f' (items.flatMap parts) := by
  have hparts : ∀ b, discard (f b) = forM (parts b) fun b' => discard (f' b') := hf
  rw [FailsAs, List.forM_eq_forM] at h ⊢
  rw [h]
  clear h
  induction items with
  | nil => rfl
  | cons b items ih => rw [List.forM_cons, List.flatMap_cons, List.forM_append, ih, hparts]

/-- There is a result if and only if no item is refused. -/
theorem exists_ok_iff {r : Except ε α} {f : β → Except ε γ} {items : List β}
    (h : FailsAs r f items) : (∃ a, r = .ok a) ↔ ∀ b ∈ items, ∃ c, f b = .ok c := by
  rw [← discard_eq_ok_iff, h]
  rcases forM_discard f items with ⟨hok, hall⟩ | ⟨b, hb, e, he, herr⟩
  · exact iff_of_true hok hall
  · refine iff_of_false (fun hok => nomatch herr.symm.trans hok) fun hall => ?_
    obtain ⟨c, hc⟩ := hall b hb
    cases he.symm.trans hc

theorem exists_ok {r : Except ε α} {f : β → Except ε γ} {items : List β} (h : FailsAs r f items)
    (hf : ∀ b ∈ items, ∃ c, f b = .ok c) : ∃ a, r = .ok a :=
  h.exists_ok_iff.2 hf

/-- The error is that of the first item that is refused. -/
theorem error_iff {r : Except ε α} {f : β → Except ε γ} {items : List β}
    (h : FailsAs r f items) {e : ε} :
    r = .error e ↔ ∃ before b after, items = before ++ b :: after ∧
      (∀ b' ∈ before, ∃ c, f b' = .ok c) ∧ f b = .error e := by
  have hdiscard : discard r = discard (items.mapM f) := h.trans (FailsAs.mapM f items).symm
  rw [← mapM_eq_error_iff, ← discard_eq_error_iff, hdiscard, discard_eq_error_iff]

/-- Items that cannot be refused do not count. -/
theorem filter {r : Except ε α} {f : β → Except ε γ} {items : List β} (h : FailsAs r f items)
    {f' : β → Except ε γ'} {keep : β → Bool}
    (hkeep : ∀ b, keep b = true → discard (f b) = discard (f' b))
    (hskip : ∀ b, keep b = false → ∃ c, f b = .ok c) : FailsAs r f' (items.filter keep) := by
  rw [FailsAs, List.forM_eq_forM] at h ⊢
  rw [h]
  clear h
  induction items with
  | nil => rfl
  | cons b items ih =>
    rw [List.forM_cons, ih]
    cases hb : keep b with
    | true => rw [List.filter_cons_of_pos hb, List.forM_cons, hkeep b hb]
    | false =>
      rw [List.filter_cons_of_neg (by simp [hb]), discard_eq_ok_iff.2 (hskip b hb)]
      rfl

end FailsAs

end FlowText
