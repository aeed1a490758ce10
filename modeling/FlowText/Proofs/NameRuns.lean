import FlowText.Proofs.NameOrder
import FlowText.Proofs.Numerals

/-!
# The runs of a name

A name is cut into text runs and digit runs that take turns (`Alternates`). There is one such cut,
since a digit always goes into the digit run that it stands next to (`eq_runs_of_alternates`), and
as runs at one place are of one kind the natural order is the comparison of the cuts place by place
(`natural_eq_compareLex`).

Digit runs compare by length behind the leading zeros, then digit by digit. That is the comparison
of the numbers that they denote (`compareDigits_eq_compare_value`): a number in two parts compares
part by part, and a longer run that does not start with a zero denotes more than any shorter one. So
behind a common start numbers decide (`natural_is_numeric`).
-/

namespace FlowText

/-! ### Digits by value -/

namespace Radix

/-- The value of a decimal digit. -/
theorem digit?_of_isDigit {c : Char} (h : c.isDigit = true) :
    dec.digit? c = some (c.toNat - '0'.toNat) := by
  obtain ⟨hlo, hhi⟩ := Char.isDigit_iff_toNat.1 h
  have hlt : c.toNat - '0'.toNat < dec.base := by
    change c.toNat ≤ 57 at hhi
    change c.toNat - 48 < 10
    omega
  simp only [digit?]
  rw [if_pos ⟨hlo, hhi⟩, Option.filter_some, if_pos (decide_eq_true hlt)]

/-- The value of a decimal digit. -/
theorem value_cons (r : Radix) (c : Char) (ds : List Char) :
    r.value (c :: ds) = (r.digit? c).getD 0 * r.base ^ ds.length + r.value ds := by
  induction ds using List.reverseRecOn with
  | nil => simp [value]
  | append_singleton ds d ih =>
    rw [← List.cons_append, value_concat, value_concat, ih, List.length_append,
      List.length_singleton]
    ring

/-- A digit is below the base. -/
theorem getD_digit?_lt (r : Radix) (c : Char) : (r.digit? c).getD 0 < r.base := by
  have hb := one_lt_base r
  cases h : r.digit? c with
  | none =>
    rw [Option.getD_none]
    omega
  | some n =>
    rw [digit?] at h
    simpa using (Option.filter_eq_some_iff.1 h).2

/-- Digits denote a number below the power of the base that they are. -/
theorem value_lt (r : Radix) (ds : List Char) : r.value ds < r.base ^ ds.length := by
  induction ds with
  | nil => simp [value]
  | cons c ds ih =>
    have hc := getD_digit?_lt r c
    rw [value_cons, List.length_cons, Nat.pow_succ']
    calc (r.digit? c).getD 0 * r.base ^ ds.length + r.value ds
        < ((r.digit? c).getD 0 + 1) * r.base ^ ds.length := by
          rw [Nat.succ_mul]
          omega
      _ ≤ r.base * r.base ^ ds.length := Nat.mul_le_mul_right _ hc

end Radix

/-- **Digits.** Every character is a decimal digit. -/
def AllDigits (cs : List Char) : Prop := ∀ c ∈ cs, c.isDigit = true

instance (cs : List Char) : Decidable (AllDigits cs) :=
  decidable_of_iff (cs.all Char.isDigit = true) List.all_eq_true

/-- **No digits.** No character is a decimal digit. -/
def NoDigits (cs : List Char) : Prop := ∀ c ∈ cs, c.isDigit = false

theorem noDigits_nil : NoDigits [] := fun _ hc => absurd hc List.not_mem_nil

/-- Numbers in two parts compare part by part if the lower parts stay below the unit of the upper
ones. -/
theorem compare_mul_add {a b x y unit : Nat} (hx : x < unit) (hy : y < unit) :
    compare (a * unit + x) (b * unit + y) = (compare a b).then (compare x y) := by
  rcases Nat.lt_trichotomy a b with h | rfl | h
  · have hle := Nat.mul_le_mul_right unit (Nat.succ_le_of_lt h)
    rw [Nat.succ_mul] at hle
    rw [Nat.compare_eq_lt.2 h, Nat.compare_eq_lt.2 (by omega)]
    rfl
  · rw [Nat.compare_eq_eq.2 rfl, Nat.compare_eq_ite_lt, Nat.compare_eq_ite_lt]
    simp only [Nat.add_lt_add_iff_left]
    rfl
  · have hle := Nat.mul_le_mul_right unit (Nat.succ_le_of_lt h)
    rw [Nat.succ_mul] at hle
    rw [Nat.compare_eq_gt.2 h, Nat.compare_eq_gt.2 (by omega)]
    rfl

/-- Characters compare by code point. -/
theorem compare_char (c d : Char) : compare c d = compare c.toNat d.toNat := by
  change compareOfLessAndEq c d = compareOfLessAndEq c.toNat d.toNat
  have hlt : c < d ↔ c.toNat < d.toNat := Iff.rfl
  have heq : c = d ↔ c.toNat = d.toNat := ⟨congrArg _, Char.toNat_inj.1⟩
  simp only [compareOfLessAndEq, hlt, heq]

/-- Decimal digits compare as their values. -/
theorem compare_digit {c d : Char} (hc : c.isDigit = true) (hd : d.isDigit = true) :
    compare c d = compare ((Radix.dec.digit? c).getD 0) ((Radix.dec.digit? d).getD 0) := by
  have hlo := (Char.isDigit_iff_toNat.1 hc).1
  have hlo' := (Char.isDigit_iff_toNat.1 hd).1
  rw [Radix.digit?_of_isDigit hc, Radix.digit?_of_isDigit hd, compare_char, Option.getD_some,
    Option.getD_some, Nat.compare_eq_ite_lt, Nat.compare_eq_ite_lt]
  congr 1 <;> [skip; congr 1] <;> simp only [eq_iff_iff] <;> omega

/-- Digit runs of one length compare digit by digit. -/
theorem compare_value_of_length_eq {d e : List Char} (hd : AllDigits d) (he : AllDigits e)
    (hlen : d.length = e.length) :
    compare (Radix.dec.value d) (Radix.dec.value e) = compare d e := by
  induction d generalizing e with
  | nil =>
    obtain rfl := List.eq_nil_of_length_eq_zero hlen.symm
    rfl
  | cons c d ih =>
    cases e with
    | nil => cases hlen
    | cons x e =>
      obtain ⟨hc, hd'⟩ := List.forall_mem_cons.1 hd
      obtain ⟨hx, he'⟩ := List.forall_mem_cons.1 he
      have hlen' : d.length = e.length := Nat.succ.inj hlen
      have hlt := Radix.dec.value_lt d
      rw [hlen'] at hlt
      rw [Radix.value_cons, Radix.value_cons, hlen', compare_mul_add hlt (Radix.dec.value_lt e),
        ih hd' he' hlen', ← compare_digit hc hx]
      exact List.compareLex_cons_cons.symm

/-- Leading zeros do not count. -/
theorem value_dropWhile_zero (d : List Char) :
    Radix.dec.value (d.dropWhile (· == '0')) = Radix.dec.value d := by
  induction d with
  | nil => rfl
  | cons c d ih =>
    rw [List.dropWhile_cons]
    split
    · next hc =>
      obtain rfl : c = '0' := beq_iff_eq.1 hc
      rw [ih, Radix.value_cons]
      simp [Radix.digit?_of_isDigit]
    · rfl

/-- A shorter run of digits denotes less, unless the longer one starts with a zero. -/
theorem value_lt_of_length_lt {d e : List Char} (he : AllDigits e) (hzero : e.head? ≠ some '0')
    (hlen : d.length < e.length) : Radix.dec.value d < Radix.dec.value e := by
  cases e with
  | nil => exact absurd hlen (Nat.not_lt_zero _)
  | cons c e =>
    have hc := he c List.mem_cons_self
    have hlo := (Char.isDigit_iff_toNat.1 hc).1
    have hne : c.toNat ≠ '0'.toNat := fun h => hzero (congrArg some (Char.toNat_inj.1 h))
    have hfirst : 1 ≤ (Radix.dec.digit? c).getD 0 := by
      rw [Radix.digit?_of_isDigit hc, Option.getD_some]
      omega
    calc Radix.dec.value d < Radix.dec.base ^ d.length := Radix.dec.value_lt d
      _ ≤ Radix.dec.base ^ e.length := Nat.pow_le_pow_right (by decide) (Nat.le_of_lt_succ hlen)
      _ ≤ (Radix.dec.digit? c).getD 0 * Radix.dec.base ^ e.length := Nat.le_mul_of_pos_left _ hfirst
      _ ≤ Radix.dec.value (c :: e) := by
        rw [Radix.value_cons]
        exact Nat.le_add_right _ _

/-- Without its leading zeros a run starts with another digit. -/
theorem head?_dropWhile_zero (d : List Char) : (d.dropWhile (· == '0')).head? ≠ some '0' := by
  intro h
  have hnot := List.head?_dropWhile_not (· == '0') d
  rw [h] at hnot
  cases hnot

/-- **By value.** Digit runs compare as the numbers that they denote, whatever their lengths. -/
theorem compareDigits_eq_compare_value {d e : List Char} (hd : AllDigits d) (he : AllDigits e) :
    compareDigits d e = compare (Radix.dec.value d) (Radix.dec.value e) := by
  have hd' : AllDigits (d.dropWhile (· == '0')) := fun c hc => hd c (List.dropWhile_subset _ hc)
  have he' : AllDigits (e.dropWhile (· == '0')) := fun c hc => he c (List.dropWhile_subset _ hc)
  rw [compareDigits, ← value_dropWhile_zero d, ← value_dropWhile_zero e]
  rcases Nat.lt_trichotomy (d.dropWhile (· == '0')).length (e.dropWhile (· == '0')).length
    with hlen | hlen | hlen
  · have hlt := value_lt_of_length_lt he' (head?_dropWhile_zero e) hlen
    rw [Nat.compare_eq_lt.2 hlen, Nat.compare_eq_lt.2 hlt]
    rfl
  · rw [Nat.compare_eq_eq.2 hlen, compare_value_of_length_eq hd' he' hlen]
    rfl
  · have hlt := value_lt_of_length_lt hd' (head?_dropWhile_zero d) hlen
    rw [Nat.compare_eq_gt.2 hlen, Nat.compare_eq_gt.2 hlt]
    rfl

/-! ### The runs of a name -/

/-- A run of a name. -/
inductive Run where
  | text (chars : List Char)
  | digits (chars : List Char)
  deriving DecidableEq, Repr

namespace Run

/-- The characters of a run. -/
def chars : Run → List Char
  | text t => t
  | digits d => d

/-- The run is one of digits. -/
def isDigits : Run → Bool
  | text _ => false
  | digits _ => true

/-- **Pure.** Text has no digits, and a digit run has nothing else and at least one. -/
def Pure : Run → Prop
  | text t => NoDigits t
  | digits d => d ≠ [] ∧ AllDigits d

/-- Text by code point, digits by the numbers that they denote. What is to be said of runs of
different kinds is left open. -/
def compare (mixed : Run → Run → Ordering) : Run → Run → Ordering
  | text t, text u => Ord.compare t u
  | digits d, digits e => Ord.compare (Radix.dec.value d) (Radix.dec.value e)
  | r, s => mixed r s

end Run

/-- **Alternation.** Text runs and digit runs take turns, with text at both ends. Only the runs at
the ends may be empty. -/
structure Alternates (rs : List Run) : Prop where
  pure : ∀ r ∈ rs, r.Pure
  /-- text stands at the even places, from zero -/
  kinds : ∀ i r, rs[i]? = some r → r.isDigits = (i % 2 == 1)
  /-- the last place is an even one -/
  odd_length : rs.length % 2 = 1
  inner : ∀ i r, rs[i]? = some r → 0 < i → i + 1 < rs.length → r.chars ≠ []

namespace Runs

/-- The runs, in order. -/
def toList : Runs → List Run
  | last t => [.text t]
  | more t d r => .text t :: .digits d :: r.toList

/-- **Clean.** The runs are pure, and no text run between digits is empty. -/
def Clean : Runs → Prop
  | last t => NoDigits t
  | more t d r => NoDigits t ∧ d ≠ [] ∧ AllDigits d ∧ (r.head = [] → r = last []) ∧ r.Clean

/-- **One more character** in front keeps the runs clean. -/
theorem clean_cons (c : Char) {r : Runs} (h : r.Clean) : (cons c r).Clean := by
  have hdigit : c.isDigit = true → AllDigits [c] := fun hc d hd => List.mem_singleton.1 hd ▸ hc
  have htext : ∀ {t}, c.isDigit = false → NoDigits t → NoDigits (c :: t) := fun hc ht =>
    List.forall_mem_cons.2 ⟨hc, ht⟩
  cases r with
  | last t =>
    cases hc : c.isDigit with
    | true =>
      rw [cons, if_pos hc]
      exact ⟨noDigits_nil, List.cons_ne_nil _ _, hdigit hc, congrArg last, h⟩
    | false =>
      rw [cons, if_neg (by simp [hc])]
      exact htext hc h
  | more t d r =>
    obtain ⟨ht, hne, hd, hinner, hr⟩ := h
    cases hc : c.isDigit with
    | true =>
      rw [cons, if_pos hc]
      split
      · exact ⟨noDigits_nil, List.cons_ne_nil _ _, List.forall_mem_cons.2 ⟨hc, hd⟩, hinner, hr⟩
      · next hempty =>
        -- the text run comes between two digit runs, and is not empty
        refine ⟨noDigits_nil, List.cons_ne_nil _ _, hdigit hc, fun h => ?_, ht, hne, hd, hinner, hr⟩
        exact absurd (List.isEmpty_iff.2 h) hempty
    | false =>
      rw [cons, if_neg (by simp [hc])]
      exact ⟨htext hc ht, hne, hd, hinner, hr⟩

/-- **The runs of a text** are clean. -/
theorem clean_ofText (cs : List Char) : (ofText cs).Clean := by
  induction cs with
  | nil => exact fun _ h => absurd h List.not_mem_nil
  | cons c cs ih => exact clean_cons c ih

/-- Digits in front of runs that do not start with digits are a run of their own. -/
theorem foldr_cons_digits {d : List Char} {r : Runs} (hd : AllDigits d) (hne : d ≠ [])
    (hinner : r.head = [] → r = last []) : d.foldr cons r = more [] d r := by
  induction d with
  | nil => exact absurd rfl hne
  | cons c d ih =>
    obtain ⟨hc, hd'⟩ := List.forall_mem_cons.1 hd
    rw [List.foldr_cons]
    cases d with
    | nil =>
      rw [List.foldr_nil]
      cases r with
      | last t => rw [cons, if_pos hc]
      | more t e r =>
        have ht : t ≠ [] := fun h => Runs.noConfusion (hinner h)
        rw [cons, if_pos hc, if_neg (by simpa using ht)]
    | cons x d =>
      rw [ih hd' (List.cons_ne_nil _ _), cons, if_pos hc]
      rfl

/-- Text joins the text run in front of digits. -/
theorem foldr_cons_text {t d : List Char} {r : Runs} (ht : NoDigits t) :
    t.foldr cons (more [] d r) = more t d r := by
  induction t with
  | nil => rfl
  | cons c t ih =>
    obtain ⟨hc, ht'⟩ := List.forall_mem_cons.1 ht
    rw [List.foldr_cons, ih ht', cons, if_neg (by simp [hc])]

/-- Text without digits is one run. -/
theorem ofText_text {t : List Char} (ht : NoDigits t) : ofText t = last t := by
  induction t with
  | nil => rfl
  | cons c t ih =>
    obtain ⟨hc, ht'⟩ := List.forall_mem_cons.1 ht
    rw [ofText_cons, ih ht', cons, if_neg (by simp [hc])]

/-- The runs of two texts, one behind the other, are those of the second one with the first one put
in front. -/
theorem ofText_append (cs ds : List Char) : ofText (cs ++ ds) = cs.foldr cons (ofText ds) := by
  rw [ofText, List.foldr_append]
  rfl

/-- **Unique.** Clean runs are the runs of the name that they make up. -/
theorem ofText_flatten {r : Runs} (h : r.Clean) : ofText r.flatten = r := by
  induction r with
  | last t => exact ofText_text h
  | more t d r ih =>
    obtain ⟨ht, hne, hd, hinner, hr⟩ := h
    rw [flatten, List.append_assoc, ofText_append, ofText_append, ih hr,
      foldr_cons_digits hd hne hinner, foldr_cons_text ht]

/-! ### Runs in a list -/

/-- The runs hold all characters, in order. -/
theorem flatMap_chars_toList (r : Runs) : r.toList.flatMap Run.chars = r.flatten := by
  induction r with
  | last t => exact List.append_nil t
  | more t d r ih =>
    rw [toList, List.flatMap_cons, List.flatMap_cons, ih, flatten, List.append_assoc]
    rfl

end Runs

namespace Alternates

/-- The last text run. -/
theorem singleton {t : List Char} (ht : NoDigits t) : Alternates [.text t] where
  pure r hr := by
    obtain rfl := List.mem_singleton.1 hr
    exact ht
  kinds i r hr := by
    cases i with
    | zero =>
      obtain rfl := Option.some.inj hr
      rfl
    | succ i => cases hr
  odd_length := rfl
  inner i r _ hpos hlt := by
    rw [List.length_singleton] at hlt
    omega

/-- A text run and a digit run go in front of an alternation, unless this starts with no text at
all. -/
theorem cons_cons {t d : List Char} {rs : List Run} (h : Alternates rs)
    (ht : NoDigits t) (hne : d ≠ [])
    (hd : AllDigits d) (hinner : rs.head? = some (.text []) → rs = [.text []]) :
    Alternates (.text t :: .digits d :: rs) where
  pure := List.forall_mem_cons.2 ⟨ht, List.forall_mem_cons.2 ⟨⟨hne, hd⟩, h.pure⟩⟩
  kinds i r hr := by
    match i with
    | 0 =>
      obtain rfl := Option.some.inj hr
      rfl
    | 1 =>
      obtain rfl := Option.some.inj hr
      rfl
    | i + 2 => rw [h.kinds i r hr, Nat.add_mod_right]
  odd_length := by
    rw [List.length_cons, List.length_cons, Nat.add_assoc, Nat.add_mod_right, h.odd_length]
  inner i r hr hpos hlt := by
    rw [List.length_cons, List.length_cons] at hlt
    match i with
    | 0 => exact absurd hpos (Nat.lt_irrefl 0)
    | 1 =>
      obtain rfl := Option.some.inj hr
      exact hne
    | 2 =>
      -- the first run behind the digits is text, and not the only one
      intro hempty
      have hkind := h.kinds 0 r hr
      cases r with
      | digits d => cases hkind
      | text u =>
        obtain rfl : u = [] := hempty
        rw [hinner (List.head?_eq_getElem?.trans hr), List.length_singleton] at hlt
        omega
    | i + 3 => exact h.inner (i + 1) r hr (Nat.succ_pos i) (by omega)

/-- What stands behind the first digit run alternates again. -/
theorem tail {r s : Run} {rs : List Run} (h : Alternates (r :: s :: rs)) : Alternates rs where
  pure q hq := h.pure q (List.mem_cons_of_mem _ (List.mem_cons_of_mem _ hq))
  kinds i q hq := by rw [h.kinds (i + 2) q hq, Nat.add_mod_right]
  odd_length := by
    have := h.odd_length
    rwa [List.length_cons, List.length_cons, Nat.add_assoc, Nat.add_mod_right] at this
  inner i q hq _ hlt :=
    h.inner (i + 2) q hq (Nat.succ_pos _) (by
      rw [List.length_cons, List.length_cons]
      omega)

/-- The first run is text. -/
theorem exists_text {r : Run} {rs : List Run} (h : Alternates (r :: rs)) :
    ∃ t, r = .text t ∧ NoDigits t := by
  have hkind := h.kinds 0 r rfl
  have hpure := h.pure r List.mem_cons_self
  cases r with
  | text t => exact ⟨t, rfl, hpure⟩
  | digits d => cases hkind

/-- The second run is one of digits. -/
theorem exists_digits {r s : Run} {rs : List Run} (h : Alternates (r :: s :: rs)) :
    ∃ d, s = .digits d ∧ d ≠ [] ∧ AllDigits d := by
  have hkind := h.kinds 1 s rfl
  have hpure := h.pure s (List.mem_cons_of_mem _ List.mem_cons_self)
  cases s with
  | text t => cases hkind
  | digits d => exact ⟨d, rfl, hpure.1, hpure.2⟩

/-- **Clean runs.** The list is that of clean runs. The recursion takes two runs off at a time. -/
theorem exists_clean : ∀ {rs : List Run}, Alternates rs → ∃ r : Runs, r.Clean ∧ r.toList = rs
  | [], h => nomatch h.odd_length
  | [_], h => by
    obtain ⟨t, rfl, ht⟩ := h.exists_text
    exact ⟨.last t, ht, rfl⟩
  | r :: s :: rs, h => by
    obtain ⟨t, rfl, ht⟩ := h.exists_text
    obtain ⟨d, rfl, hne, hd⟩ := h.exists_digits
    obtain ⟨q, hq, rfl⟩ := h.tail.exists_clean
    refine ⟨.more t d q, ⟨ht, hne, hd, fun hempty => ?_, hq⟩, rfl⟩
    cases q with
    | last u => exact congrArg Runs.last hempty
    | more u e q =>
      exact absurd hempty (h.inner 2 (.text u) rfl (by decide) (by simp [Runs.toList]))

end Alternates

namespace Runs

/-- Clean runs alternate. -/
theorem Clean.alternates {r : Runs} (h : r.Clean) : Alternates r.toList := by
  induction r with
  | last t => exact .singleton h
  | more t d r ih =>
    obtain ⟨ht, hne, hd, hinner, hr⟩ := h
    refine (ih hr).cons_cons ht hne hd fun hempty => ?_
    have hhead : r.head = [] := by
      cases r <;> exact Run.text.inj (Option.some.inj hempty)
    rw [hinner hhead]
    rfl

end Runs

/-- The runs of a name. -/
def runs (name : String) : List Run := (Runs.ofText name.toList).toList

/-- The runs of a name alternate. -/
theorem alternates_runs (name : String) : Alternates (runs name) := (Runs.clean_ofText _).alternates

/-- The runs of a name make up the name. -/
theorem flatMap_chars_runs (name : String) : (runs name).flatMap Run.chars = name.toList := by
  rw [runs, Runs.flatMap_chars_toList, Runs.flatten_ofText]

/-- **One alternation.** A name is cut into runs in one way only. -/
theorem eq_runs_of_alternates {name : String} {rs : List Run} (h : Alternates rs)
    (hname : rs.flatMap Run.chars = name.toList) : rs = runs name := by
  obtain ⟨r, hr, rfl⟩ := h.exists_clean
  rw [runs, ← hname, Runs.flatMap_chars_toList, Runs.ofText_flatten hr]

/-! ### Names run by run -/

namespace Runs

/-- Runs of different kinds are never compared. -/
theorem compare_eq_compareLex (mixed : Run → Run → Ordering) {r s : Runs} (hr : r.Clean)
    (hs : s.Clean) : r.compare s = List.compareLex (Run.compare mixed) r.toList s.toList := by
  induction r generalizing s with
  | last t =>
    cases s with
    | last u =>
      rw [Runs.compare, toList, toList, List.compareLex_cons_cons, List.compareLex_nil_nil]
      exact Ordering.then_eq.symm
    | more u e s =>
      rw [Runs.compare, toList, toList, List.compareLex_cons_cons, List.compareLex_nil_cons]
      rfl
  | more t d r ih =>
    cases s with
    | last u =>
      rw [Runs.compare, toList, toList, List.compareLex_cons_cons, List.compareLex_cons_nil]
      rfl
    | more u e s =>
      obtain ⟨-, -, hd, -, hr'⟩ := hr
      obtain ⟨-, -, he, -, hs'⟩ := hs
      rw [Runs.compare, toList, toList, List.compareLex_cons_cons,
        List.compareLex_cons_cons, ih hr' hs', compareDigits_eq_compare_value hd he]
      rfl

end Runs

/-- **Names compare run by run**, and then by code point. What is to be said of runs of different
kinds does not matter, as none meet. -/
theorem natural_eq_compareLex (mixed : Run → Run → Ordering) (a b : String) :
    natural a b = (List.compareLex (Run.compare mixed) (runs a) (runs b)).then (compare a b) := by
  rw [natural, Runs.compare_eq_compareLex mixed (Runs.clean_ofText _) (Runs.clean_ofText _)]
  rfl

/-! ### Names with a common start -/

namespace Runs

/-- The last text run. -/
def final : Runs → List Char
  | last t => t
  | more _ _ r => r.final

/-- More runs behind the last text run, from a digit run on. -/
def extend : Runs → (d : List Char) → (rest : Runs) → Runs
  | last t, d, rest => more t d rest
  | more t e r, d, rest => more t e (r.extend d rest)

theorem flatten_extend (r : Runs) (d : List Char) (rest : Runs) :
    (r.extend d rest).flatten = r.flatten ++ d ++ rest.flatten := by
  induction r with
  | last t => rfl
  | more t e r ih => simp only [extend, flatten, ih, List.append_assoc]

theorem head_extend (r : Runs) (d : List Char) (rest : Runs) : (r.extend d rest).head = r.head := by
  cases r <;> rfl

/-- The last text run of a name is empty only if the name is, or ends with a digit. -/
theorem exists_digit_of_final {r : Runs} (hr : r.Clean) (h : r.final = []) :
    r = last [] ∨ ∃ c, r.flatten.getLast? = some c ∧ c.isDigit = true := by
  induction r with
  | last t => exact .inl (congrArg last h)
  | more t d r ih =>
    obtain ⟨-, hne, hd, -, hr'⟩ := hr
    rw [flatten, List.append_assoc]
    rcases ih hr' h with rfl | ⟨c, hc, hdigit⟩
    · refine .inr ⟨d.getLast hne, ?_, hd _ (List.getLast_mem hne)⟩
      simp [flatten, List.getLast?_append, List.getLast?_eq_some_getLast hne]
    · refine .inr ⟨c, ?_, hdigit⟩
      simp [List.getLast?_append, hc]

/-- More runs leave the runs clean if there is text in front of them, or nothing. -/
theorem Clean.extend {d : List Char} {rest r : Runs} (hr : r.Clean)
    (hfinal : r.final = [] → r = last [])
    (hne : d ≠ []) (hd : AllDigits d) (hinner : rest.head = [] → rest = last [])
    (hrest : rest.Clean) : (r.extend d rest).Clean := by
  induction r with
  | last t => exact ⟨hr, hne, hd, hinner, hrest⟩
  | more t e r ih =>
    obtain ⟨ht, hne', he, hinner', hr'⟩ := hr
    have hfull : r.final ≠ [] := fun h => nomatch hfinal h
    refine ⟨ht, hne', he, fun hempty => ?_, ih hr' fun h => absurd h hfull⟩
    rw [head_extend] at hempty
    rw [hinner' hempty] at hfull
    exact absurd rfl hfull

/-- What comes behind the same runs decides. -/
theorem compare_extend (r : Runs) (d e : List Char) (rest rest' : Runs) :
    (r.extend d rest).compare (r.extend e rest') =
      (compareDigits d e).then (rest.compare rest') := by
  have hself : ∀ t : List Char, Ord.compare t t = .eq := fun _ => Std.ReflCmp.compare_self
  induction r with
  | last t =>
    rw [extend, extend, Runs.compare, hself]
    rfl
  | more t f r ih =>
    have hdigits : compareDigits f f = .eq := by
      rw [compareDigits, hself, Nat.compare_eq_eq.2 rfl]
      rfl
    rw [extend, extend, Runs.compare, hself, hdigits, ih]
    rfl

/-- The runs of a name that goes on with a number. -/
theorem ofText_append_digits {p d s : List Char}
    (hp : p.getLast?.any Char.isDigit = false) (hne : d ≠ [])
    (hd : AllDigits d) (hs : s.head?.any Char.isDigit = false) :
    ofText (p ++ d ++ s) = (ofText p).extend d (ofText s) := by
  have hfinal : (ofText p).final = [] → ofText p = last [] := by
    intro h
    rcases exists_digit_of_final (clean_ofText p) h with h | ⟨c, hc, hdigit⟩
    · exact h
    · rw [flatten_ofText] at hc
      rw [hc, Option.any_some, hdigit] at hp
      cases hp
  have hinner : (ofText s).head = [] → ofText s = last [] := by
    cases s with
    | nil => exact fun _ => rfl
    | cons c s =>
      have hc : c.isDigit = false := hs
      intro h
      rw [ofText_cons] at h
      cases hr : ofText s <;> rw [hr, cons, if_neg (by simp [hc])] at h <;> cases h
  have hclean := (clean_ofText p).extend hfinal hne hd hinner (clean_ofText s)
  rw [← ofText_flatten hclean, flatten_extend, flatten_ofText, flatten_ofText]

end Runs

/-- **By numeric value.** A name is cut in one way only into text and digit runs that take turns,
and its runs are this cut. The natural order compares the runs of two names place by place, text by
code point and digits by the numbers that they denote; if the runs of one name are used up first it
is the smaller one, and names whose runs agree are told apart by code point. So, behind a common
start that does not end with a digit, the smaller number decides, however many digits or leading
zeros it has, and whatever comes behind it. -/
theorem natural_is_numeric :
    (∀ (name : String) (rs : List Run),
      (Alternates rs ∧ rs.flatMap Run.chars = name.toList) ↔ rs = runs name) ∧
    (∀ (mixed : Run → Run → Ordering) (a b : String),
      natural a b = (List.compareLex (Run.compare mixed) (runs a) (runs b)).then (compare a b)) ∧
    (∀ d e : List Char, AllDigits d → AllDigits e →
      compareDigits d e = compare (Radix.dec.value d) (Radix.dec.value e)) ∧
    ∀ p d e s t : String, p.toList.getLast?.any Char.isDigit = false →
      d ≠ "" → AllDigits d.toList → e ≠ "" → AllDigits e.toList →
      Radix.dec.value d.toList < Radix.dec.value e.toList →
      s.toList.head?.any Char.isDigit = false → t.toList.head?.any Char.isDigit = false →
      natural (p ++ d ++ s) (p ++ e ++ t) = .lt := by
  refine ⟨fun name rs => ⟨fun h => eq_runs_of_alternates h.1 h.2, ?_⟩, natural_eq_compareLex,
    fun d e => compareDigits_eq_compare_value, fun p d e s t hp hdne hd hene he hlt hs ht => ?_⟩
  · rintro rfl
    exact ⟨alternates_runs name, flatMap_chars_runs name⟩
  · have hnil : ∀ {u : String}, u ≠ "" → u.toList ≠ [] :=
      fun hu h => hu (String.toList_eq_nil_iff.1 h)
    have hvalue : compareDigits d.toList e.toList = .lt := by
      rw [compareDigits_eq_compare_value hd he, Nat.compare_eq_lt.2 hlt]
    simp only [natural, String.toList_append]
    rw [Runs.ofText_append_digits hp (hnil hdne) hd hs,
      Runs.ofText_append_digits hp (hnil hene) he ht, Runs.compare_extend, hvalue]
    rfl

/-- The number decides before the text behind it does. -/
theorem block_names_by_number :
    natural ("blk" ++ "007" ++ ".z") ("blk" ++ "10" ++ ".a") = .lt ∧
      runs "blk007.z" = [.text ['b', 'l', 'k'], .digits ['0', '0', '7'], .text ['.', 'z']] := by
  obtain ⟨-, -, -, hnumbers⟩ := natural_is_numeric
  refine ⟨hnumbers "blk" "007" "10" ".z" ".a" ?_ ?_ ?_ ?_ ?_ ?_ ?_ ?_, ?_⟩ <;> decide +kernel

end FlowText
