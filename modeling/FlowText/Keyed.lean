/-!
# Lists in ascending order of a key

* `Keyed key` — items in strictly ascending order of a text key, so that each key occurs once.
* `Keyed.insert` — puts an item in its place, instead of one with the same key.
* `Keyed.find?`, `Keyed.erase` — the item with a given key, and all others.
-/

namespace FlowText

/-- Items in strictly ascending order of their keys, by code point. -/
structure Keyed {α : Type} (key : α → String) where
  /-- the items, smallest key first -/
  toList : List α := []
  /-- the keys ascend strictly -/
  ascending : toList.Pairwise (fun a b => key a < key b) := by exact .nil
  deriving DecidableEq, Repr

namespace Keyed

variable {α : Type} {key : α → String}

/-- Puts an item into an ascending list, instead of one with the same key. -/
def place (key : α → String) (x : α) : List α → List α
  | [] => [x]
  | y :: ys =>
    if key x < key y then x :: y :: ys
    else if key x = key y then x :: ys
    else y :: place key x ys

theorem mem_of_mem_place {x y : α} {l : List α} (h : y ∈ place key x l) : y = x ∨ y ∈ l := by
  induction l with
  | nil => simpa [place] using h
  | cons z zs ih =>
    rw [place] at h
    split at h
    · simpa using h
    split at h
    · rcases List.mem_cons.1 h with rfl | h
      · exact .inl rfl
      · exact .inr (List.mem_cons_of_mem _ h)
    · rcases List.mem_cons.1 h with rfl | h
      · exact .inr List.mem_cons_self
      · exact (ih h).imp_right (List.mem_cons_of_mem _)

theorem pairwise_place (x : α) {l : List α} (h : l.Pairwise fun a b => key a < key b) :
    (place key x l).Pairwise fun a b => key a < key b := by
  induction l with
  | nil => simp [place]
  | cons z zs ih =>
    obtain ⟨hz, hzs⟩ := List.pairwise_cons.1 h
    rw [place]
    split
    · next hlt =>
      refine List.pairwise_cons.2 ⟨fun a ha => ?_, h⟩
      rcases List.mem_cons.1 ha with rfl | ha
      · exact hlt
      · exact String.lt_trans hlt (hz a ha)
    split
    · next heq => exact List.pairwise_cons.2 ⟨fun a ha => heq ▸ hz a ha, hzs⟩
    · next hlt hne =>
      refine List.pairwise_cons.2 ⟨fun a ha => ?_, ih hzs⟩
      rcases mem_of_mem_place ha with rfl | ha
      · exact Std.lt_of_le_of_ne (String.not_lt.1 hlt) (Ne.symm hne)
      · exact hz a ha

/-- **Insert.** Puts an item in its place, instead of one with the same key. -/
def insert (x : α) (k : Keyed key) : Keyed key :=
  ⟨place key x k.toList, pairwise_place x k.ascending⟩

/-- Takes out the item with a given key, if there is one. -/
def erase (name : String) (k : Keyed key) : Keyed key :=
  ⟨k.toList.filter (key · != name), k.ascending.filter _⟩

/-- The item with a given key. -/
def find? (name : String) (k : Keyed key) : Option α := k.toList.find? fun x => key x == name

/-- The number of items. -/
def size (k : Keyed key) : Nat := k.toList.length

/-- What is put in its place is found there, and otherwise what was there. -/
theorem find?_place (x : α) (l : List α) (name : String) :
    (place key x l).find? (fun y => key y == name) =
      if key x = name then some x else l.find? fun y => key y == name := by
  induction l with
  | nil => by_cases h : key x = name <;> simp [place, h]
  | cons y ys ih =>
    rw [place]
    split
    · by_cases h : key x = name <;> simp [h]
    split
    · next heq => by_cases h : key x = name <;> simp [← heq, h]
    · next hne =>
      by_cases h : key y = name
      · have hx : key x ≠ name := fun hx => hne (hx.trans h.symm)
        have hy : (key y == name) = true := beq_iff_eq.2 h
        simp only [List.find?_cons, hy, if_neg hx]
      · have hy : (key y == name) = false := beq_eq_false_iff_ne.2 h
        simp only [List.find?_cons, hy, ih]

/-- What is put in is found, and otherwise what was there. -/
theorem find?_insert (x : α) (k : Keyed key) (name : String) :
    (k.insert x).find? name = if key x = name then some x else k.find? name :=
  find?_place x k.toList name

/-- What is taken out is not found, and otherwise what was there. -/
theorem find?_erase (k : Keyed key) (name other : String) :
    (k.erase name).find? other = if other = name then none else k.find? other := by
  rw [erase, find?, List.find?_filter]
  split
  · next h =>
    rw [List.find?_eq_none]
    simp [h]
  · next h =>
    refine congrArg (List.find? · k.toList) (funext fun x => ?_)
    rw [Bool.eq_iff_iff]
    simp only [decide_eq_true_eq, bne_iff_ne, beq_iff_eq]
    exact ⟨And.right, fun hx => ⟨fun hn => h (hx.symm.trans hn), hx⟩⟩

end Keyed

end FlowText
