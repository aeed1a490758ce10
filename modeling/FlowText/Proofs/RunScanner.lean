import FlowText.Proofs.NameRuns

/-!
# A scanner for the runs of a name

A name can be cut into runs in one pass from left to right. The scanner keeps where the open run
starts and whether it is one of digits. At a character of the other kind it cuts the open run out of
the name, and opens the next one there (`Scan.turn`). Behind the last character the open run is cut
out as well, and an empty text run is put behind it if it was one of digits (`scannedRuns`).

What is kept through every turn is that the runs cut out so far alternate and make up the name up to
the open run, which is of one kind and not empty unless it is the first (`Scan.Upto`). So the runs
that are scanned are the runs of the name (`scannedRuns_eq`), and to compare two names by the runs
that are scanned, place by place and then by their number, is the natural order
(`scanned_order_is_natural`).
-/

namespace FlowText

/-! ### The scanner -/

/-- **Scan.** What the scanner keeps. -/
structure Scan where
  /-- where the open run starts -/
  start : Nat := 0
  /-- the open run is one of digits -/
  inDigits : Bool := false
  /-- the runs that were cut out, in order -/
  done : List Run := []

namespace Scan

variable {cs : List Char} {i : Nat} {s : Scan}

/-- The characters of the open run, up to a position. -/
def slice (cs : List Char) (s : Scan) (i : Nat) : List Char := (cs.take i).drop s.start

/-- The open run, up to a position. -/
def openRun (cs : List Char) (s : Scan) (i : Nat) : Run :=
  if s.inDigits then .digits (s.slice cs i) else .text (s.slice cs i)

/-- **Turn.** A character of the other kind closes the open run, and starts the next one. -/
def turn (cs : List Char) (s : Scan) (i : Nat) (c : Char) : Scan :=
  if c.isDigit != s.inDigits then ⟨i, !s.inDigits, s.done ++ [s.openRun cs i]⟩ else s

/-- Takes the turns for what is left of a name from a position on. -/
def turns (cs : List Char) : Scan → Nat → List Char → Scan
  | s, _, [] => s
  | s, i, c :: rest => turns cs (s.turn cs i c) (i + 1) rest

/-- **Up to a position.** What holds when the characters in front of it have been scanned. -/
structure Upto (cs : List Char) (i : Nat) (s : Scan) : Prop where
  pure : ∀ r ∈ s.done, r.Pure
  /-- text stands at the even places, from zero -/
  kinds : ∀ j r, s.done[j]? = some r → r.isDigits = (j % 2 == 1)
  inner : ∀ j r, s.done[j]? = some r → 0 < j → r.chars ≠ []
  /-- the open run is of the kind that comes next -/
  next : s.inDigits = (s.done.length % 2 == 1)
  start_le : s.start ≤ i
  /-- the open run is not empty, unless it is the first -/
  start_lt : s.done ≠ [] → s.start < i
  flatten : s.done.flatMap Run.chars = cs.take s.start
  /-- the open run is of one kind -/
  slice : ∀ c ∈ s.slice cs i, c.isDigit = s.inDigits

/-- At the start nothing is done. -/
theorem upto_zero (cs : List Char) : Upto cs 0 {} where
  pure _ hr := absurd hr List.not_mem_nil
  kinds _ _ hr := nomatch hr
  inner _ _ hr := nomatch hr
  next := rfl
  start_le := Nat.le_refl 0
  start_lt h := absurd rfl h
  flatten := rfl
  slice _ hc := absurd hc List.not_mem_nil

/-- One more character goes to the end of the open run. -/
theorem slice_succ {c : Char} (hc : cs[i]? = some c) (hs : s.start ≤ i) :
    s.slice cs (i + 1) = s.slice cs i ++ [c] := by
  obtain ⟨hi, rfl⟩ := List.getElem?_eq_some_iff.1 hc
  have hstart : s.start ≤ (cs.take i).length := by
    rw [List.length_take]
    omega
  rw [Scan.slice, Scan.slice, List.take_succ_eq_append_getElem hi,
    List.drop_append_of_le_length hstart]

/-- A run that starts at a position holds nothing up to it. -/
theorem slice_start (cs : List Char) (i : Nat) (digits : Bool) (done : List Run) :
    Scan.slice cs ⟨i, digits, done⟩ i = [] := by
  rw [Scan.slice, List.drop_of_length_le (List.length_take_le i cs)]

/-- One more run stands behind those that were there. -/
theorem getElem?_concat_cases {rs : List Run} {r last : Run} {j : Nat}
    (hr : (rs ++ [last])[j]? = some r) : rs[j]? = some r ∨ j = rs.length ∧ r = last := by
  rw [List.getElem?_append] at hr
  split at hr
  · exact .inl hr
  · next hj =>
    obtain ⟨hlt, hget⟩ := List.getElem?_eq_some_iff.1 hr
    rw [List.length_singleton] at hlt
    refine .inr ⟨by omega, ?_⟩
    rw [List.getElem_singleton] at hget
    exact hget.symm

namespace Upto

/-- The scan knows the kind of the run that is open. -/
theorem isDigits_openRun (cs : List Char) (s : Scan) (i : Nat) :
    (s.openRun cs i).isDigits = s.inDigits := by
  rw [openRun]
  cases s.inDigits <;> rfl

/-- The open run holds what was passed since its start. -/
theorem chars_openRun (cs : List Char) (s : Scan) (i : Nat) :
    (s.openRun cs i).chars = s.slice cs i := by
  rw [openRun]
  cases s.inDigits <;> rfl

/-- An open run that is not the first is not empty. -/
theorem slice_ne_nil (h : Upto cs i s) (hi : i ≤ cs.length) (hdone : s.done ≠ []) :
    s.slice cs i ≠ [] := by
  intro hnil
  have hlength := congrArg List.length hnil
  have hlt := h.start_lt hdone
  rw [Scan.slice, List.length_drop, List.length_take, List.length_nil] at hlength
  omega

/-- Digits come behind text, so a run of digits is never the first. -/
theorem done_ne_nil (h : Upto cs i s) (hdigits : s.inDigits = true) : s.done ≠ [] := by
  intro hnil
  have hnext := h.next
  rw [hdigits, hnil] at hnext
  cases hnext

/-- The open run is pure when it is cut out. -/
theorem pure_openRun (h : Upto cs i s) (hi : i ≤ cs.length) : (s.openRun cs i).Pure := by
  have hslice := h.slice
  rw [openRun]
  cases hdigits : s.inDigits with
  | true =>
    rw [hdigits] at hslice
    exact ⟨h.slice_ne_nil hi (h.done_ne_nil hdigits), hslice⟩
  | false =>
    rw [hdigits] at hslice
    exact hslice

/-- What has been cut out takes turns when the open run is cut out, too. -/
theorem kinds_cut (h : Upto cs i s) (j : Nat) (r : Run)
    (hr : (s.done ++ [s.openRun cs i])[j]? = some r) : r.isDigits = (j % 2 == 1) := by
  rcases getElem?_concat_cases hr with hr | ⟨rfl, rfl⟩
  · exact h.kinds j r hr
  · rw [isDigits_openRun, h.next]

/-- Only the first run may be empty. -/
theorem inner_cut (h : Upto cs i s) (hi : i ≤ cs.length) (j : Nat) (r : Run)
    (hr : (s.done ++ [s.openRun cs i])[j]? = some r) (hj : 0 < j) : r.chars ≠ [] := by
  rcases getElem?_concat_cases hr with hr | ⟨rfl, rfl⟩
  · exact h.inner j r hr hj
  · rw [chars_openRun]
    exact h.slice_ne_nil hi (List.ne_nil_of_length_pos hj)

/-- All runs are pure, the open one included. -/
theorem pure_cut (h : Upto cs i s) (hi : i ≤ cs.length) :
    ∀ r ∈ s.done ++ [s.openRun cs i], r.Pure := by
  intro r hr
  rcases List.mem_append.1 hr with hr | hr
  · exact h.pure r hr
  · rw [List.mem_singleton.1 hr]
    exact h.pure_openRun hi

/-- The runs make up the name so far. -/
theorem flatten_cut (h : Upto cs i s) :
    (s.done ++ [s.openRun cs i]).flatMap Run.chars = cs.take i := by
  have htake : (cs.take i).take s.start = cs.take s.start := by
    rw [List.take_take, Nat.min_eq_left h.start_le]
  rw [List.flatMap_append, List.flatMap_singleton, chars_openRun, h.flatten, ← htake]
  exact List.take_append_drop s.start (cs.take i)

/-- **Step.** A turn goes on by one character. -/
theorem turn (h : Upto cs i s) {c : Char} (hc : cs[i]? = some c) :
    Upto cs (i + 1) (s.turn cs i c) := by
  have hi : i < cs.length := (List.getElem?_eq_some_iff.1 hc).1
  rw [Scan.turn]
  split
  -- the other kind: the open run is closed, and the character is all of the next one
  · next hkind =>
    have hnext : c.isDigit = !s.inDigits := by
      cases hdigits : s.inDigits <;> simpa [hdigits] using hkind
    refine ⟨h.pure_cut hi.le, h.kinds_cut, h.inner_cut hi.le, ?_, Nat.le_succ i,
      fun _ => Nat.lt_succ_self i, h.flatten_cut, fun d hd => ?_⟩
    · rw [List.length_append, List.length_singleton, h.next]
      rcases Nat.mod_two_eq_zero_or_one s.done.length with hp | hp
      · simp [hp, Nat.add_mod]
      · simp [hp, Nat.add_mod]
    · rw [slice_succ hc (Nat.le_refl i), slice_start] at hd
      rw [List.mem_singleton.1 hd]
      exact hnext
  -- the same kind: the open run grows
  · next hkind =>
    have hsame : c.isDigit = s.inDigits := by simpa using hkind
    refine ⟨h.pure, h.kinds, h.inner, h.next, Nat.le_succ_of_le h.start_le,
      fun hdone => Nat.lt_succ_of_lt (h.start_lt hdone), h.flatten, fun d hd => ?_⟩
    rw [slice_succ hc h.start_le] at hd
    rcases List.mem_append.1 hd with hd | hd
    · exact h.slice d hd
    · rw [List.mem_singleton.1 hd]
      exact hsame

/-- **Run.** The turns for what is left of a name lead to its end. -/
theorem turns (h : Upto cs i s) {rest : List Char} (hrest : cs.drop i = rest) (hi : i ≤ cs.length) :
    Upto cs cs.length (s.turns cs i rest) := by
  induction rest generalizing i s with
  | nil =>
    obtain rfl : i = cs.length := Nat.le_antisymm hi (List.drop_eq_nil_iff.1 hrest)
    exact h
  | cons c rest ih =>
    have hlt : i < cs.length := by
      refine Nat.lt_of_le_of_ne hi fun he => ?_
      rw [he, List.drop_length] at hrest
      cases hrest
    rw [List.drop_eq_getElem_cons hlt] at hrest
    obtain ⟨hc, hrest⟩ := List.cons.inj hrest
    exact ih (h.turn (hc ▸ List.getElem?_eq_getElem hlt)) hrest hlt

end Upto

end Scan

/-- **Scanned runs.** The runs that are cut out of a name, with the last one, and an empty text run
behind digits. -/
def scannedRuns (name : String) : List Run :=
  let s := Scan.turns name.toList {} 0 name.toList
  let cut := s.done ++ [s.openRun name.toList name.toList.length]
  if s.inDigits then cut ++ [.text []] else cut

namespace Scan.Upto

variable {cs : List Char} {s : Scan}

/-- A text run that is open at the end is the last one. -/
theorem alternates_of_text (h : Upto cs cs.length s) (htext : s.inDigits = false) :
    Alternates (s.done ++ [s.openRun cs cs.length]) where
  pure := h.pure_cut (Nat.le_refl _)
  kinds := h.kinds_cut
  odd_length := by
    have hnext := h.next
    rw [htext] at hnext
    rw [List.length_append, List.length_singleton]
    have hne : s.done.length % 2 ≠ 1 := beq_eq_false_iff_ne.1 hnext.symm
    omega
  inner j r hr hj _ := h.inner_cut (Nat.le_refl _) j r hr hj

/-- Behind a digit run that is open at the end an empty text run is the last one. -/
theorem alternates_of_digits (h : Upto cs cs.length s) (hdigits : s.inDigits = true) :
    Alternates (s.done ++ [s.openRun cs cs.length] ++ [.text []]) := by
  have hodd : s.done.length % 2 = 1 := by
    have hnext := h.next
    rw [hdigits] at hnext
    exact beq_iff_eq.1 hnext.symm
  have hlength : (s.done ++ [s.openRun cs cs.length]).length = s.done.length + 1 :=
    List.length_append
  refine ⟨?_, ?_, ?_, ?_⟩
  · intro r hr
    rcases List.mem_append.1 hr with hr | hr
    · exact h.pure_cut (Nat.le_refl _) r hr
    · rw [List.mem_singleton.1 hr]
      exact noDigits_nil
  · intro j r hr
    rcases getElem?_concat_cases hr with hr | ⟨rfl, rfl⟩
    · exact h.kinds_cut j r hr
    · have heven : (s.done ++ [s.openRun cs cs.length]).length % 2 ≠ 1 := by omega
      rw [beq_eq_false_iff_ne.2 heven]
      rfl
  · rw [List.length_append, hlength, List.length_singleton]
    omega
  · intro j r hr hj hlt
    rw [List.length_append, List.length_singleton] at hlt
    rw [List.getElem?_append_left (by omega)] at hr
    exact h.inner_cut (Nat.le_refl _) j r hr hj

end Scan.Upto

/-- **The scanner cuts as the runs are.** -/
theorem scannedRuns_eq (name : String) : scannedRuns name = runs name := by
  have hscan : Scan.Upto name.toList name.toList.length (Scan.turns name.toList {} 0 name.toList) :=
    (Scan.upto_zero name.toList).turns rfl (Nat.zero_le _)
  have hflatten := hscan.flatten_cut
  rw [List.take_length] at hflatten
  rw [scannedRuns]
  split
  · next hdigits =>
    refine eq_runs_of_alternates (hscan.alternates_of_digits hdigits) ?_
    rw [List.flatMap_append, hflatten]
    exact List.append_nil _
  · next htext =>
    exact eq_runs_of_alternates (hscan.alternates_of_text (Bool.not_eq_true _ ▸ htext)) hflatten

/-! ### The comparison -/

namespace Run

/-- Text by code point, digits without their leading zeros. Text is larger than digits, though the
two never meet. -/
def order : Run → Run → Ordering
  | digits d, digits e => compareDigits d e
  | text t, text u => Ord.compare t u
  | text _, digits _ => .gt
  | digits _, text _ => .lt

/-- Two pure runs compare as in the order of names. -/
theorem order_eq_compare {r s : Run} (hr : r.Pure) (hs : s.Pure) :
    r.order s = r.compare order s := by
  cases r with
  | text t => cases s <;> rfl
  | digits d =>
    cases s with
    | text u => rfl
    | digits e => exact compareDigits_eq_compare_value hr.2 hs.2

end Run

/-- The first place where runs differ decides. -/
def firstDifference : List (Run × Run) → Ordering
  | [] => .eq
  | (r, s) :: rest =>
    match r.order s with
    | .eq => firstDifference rest
    | decided => decided

/-- The first pair that differs tells. -/
theorem firstDifference_cons (r s : Run) (rest : List (Run × Run)) :
    firstDifference ((r, s) :: rest) = (r.order s).then (firstDifference rest) := by
  rw [firstDifference]
  cases r.order s <;> rfl

/-- Names by the runs that are scanned: the first difference decides, then the number of the runs,
then the names themselves. -/
def scannedOrder (a b : String) : Ordering :=
  let left := scannedRuns a
  let right := scannedRuns b
  (firstDifference (left.zip right)).then
    ((compare left.length right.length).then (compare a b))

/-- Going through the pairs and then comparing the lengths is comparing place by place. -/
theorem firstDifference_zip {rs ss : List Run} (hr : ∀ r ∈ rs, r.Pure) (hs : ∀ s ∈ ss, s.Pure) :
    (firstDifference (rs.zip ss)).then (compare rs.length ss.length) =
      List.compareLex (Run.compare Run.order) rs ss := by
  induction rs generalizing ss with
  | nil =>
    cases ss with
    | nil => rfl
    | cons s ss => exact Nat.compare_eq_lt.2 (Nat.succ_pos _)
  | cons r rs ih =>
    cases ss with
    | nil => exact Nat.compare_eq_gt.2 (Nat.succ_pos _)
    | cons s ss =>
      obtain ⟨hr, hrs⟩ := List.forall_mem_cons.1 hr
      obtain ⟨hs, hss⟩ := List.forall_mem_cons.1 hs
      have hlength : compare (r :: rs).length (s :: ss).length = compare rs.length ss.length := by
        rw [Nat.compare_eq_ite_lt, Nat.compare_eq_ite_lt]
        simp only [List.length_cons, Nat.add_lt_add_iff_right]
      rw [List.zip_cons_cons, firstDifference_cons, hlength, Ordering.then_assoc, ih hrs hss,
        Run.order_eq_compare hr hs, List.compareLex_cons_cons]

/-- **The scanned order is the natural order.** A scan cuts every name into its runs, and whatever
is compared run by run in this way is compared by the natural order. -/
theorem scanned_order_is_natural (a b : String) :
    scannedRuns a = runs a ∧ scannedOrder a b = natural a b := by
  refine ⟨scannedRuns_eq a, ?_⟩
  rw [natural_eq_compareLex Run.order, scannedOrder, scannedRuns_eq, scannedRuns_eq,
    ← firstDifference_zip (alternates_runs a).pure (alternates_runs b).pure, Ordering.then_assoc]

/-- A name that ends with digits has an empty text run behind them. -/
example : scannedRuns "r07" = [.text ['r'], .digits ['0', '7'], .text []] := by decide +kernel

end FlowText
