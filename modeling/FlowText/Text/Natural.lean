/-!
# Natural order of names

A name is read as an alternation of text runs and digit runs, so that `r2` comes before `r10`.

* `Runs` — the alternation, which starts and ends with a (possibly empty) text run.
* `compareDigits` — digit runs by value, whatever their length.
* `natural` — the order of names; `sortNatural` — a stable sort by it.
-/

namespace FlowText

/-- A name as an alternation of text runs and digit runs, by construction starting and ending with
a text run. -/
inductive Runs where
  /-- the final text run -/
  | last (text : List Char)
  /-- a text run, the digit run behind it, and what follows -/
  | more (text digits : List Char) (rest : Runs)
  deriving DecidableEq, Repr

namespace Runs

/-- Puts one character in front: it extends the first run, or opens one before it. -/
def cons (c : Char) : Runs → Runs
  | last text => if c.isDigit then more [] [c] (last text) else last (c :: text)
  | more text digits rest =>
    if c.isDigit then
      if text.isEmpty then more [] (c :: digits) rest else more [] [c] (more text digits rest)
    else more (c :: text) digits rest

/-- The runs of a name. -/
def ofText (cs : List Char) : Runs := cs.foldr cons (last [])

@[simp] theorem ofText_nil : ofText [] = last [] := rfl

@[simp] theorem ofText_cons (c : Char) (cs : List Char) :
    ofText (c :: cs) = cons c (ofText cs) := rfl

/-- The name that the runs make up. -/
def flatten : Runs → List Char
  | last text => text
  | more text digits rest => text ++ digits ++ rest.flatten

/-- The runs of a name make up that name. -/
theorem flatten_cons (c : Char) (r : Runs) : (cons c r).flatten = c :: r.flatten := by
  cases r with
  | last text => by_cases h : c.isDigit <;> simp [cons, flatten, h]
  | more text digits rest =>
    by_cases h : c.isDigit
    · by_cases ht : text = [] <;> simp [cons, flatten, h, ht]
    · simp [cons, flatten, h]

theorem flatten_ofText (cs : List Char) : (ofText cs).flatten = cs := by
  induction cs with
  | nil => rfl
  | cons c cs ih => rw [ofText_cons, flatten_cons, ih]

end Runs

/-- **Digits by value.** After the leading zeros a longer run is the larger number, and runs of one
length compare digit by digit. No number is formed, so a run may have any length. -/
def compareDigits (d e : List Char) : Ordering :=
  let d := d.dropWhile (· == '0')
  let e := e.dropWhile (· == '0')
  (compare d.length e.length).then (compare d e)

/-- Run by run: text by code point, digits by value. If one name's runs are used up first, it is
the smaller. -/
def Runs.compare : Runs → Runs → Ordering
  | last t, last u => Ord.compare t u
  | last t, more u _ _ => (Ord.compare t u).then .lt
  | more t _ _, last u => (Ord.compare t u).then .gt
  | more t d r, more u e s =>
    (Ord.compare t u).then ((compareDigits d e).then (Runs.compare r s))

/-- **Natural order.** Names whose runs agree, such as `r07` and `r7`, are told apart by code
point, so only equal names compare as equal. -/
def natural (a b : String) : Ordering :=
  ((Runs.ofText a.toList).compare (Runs.ofText b.toList)).then (compare a b)

/-- Sorts by a name attached to each item. Items of one name keep their order. -/
def sortByName {α : Type} (name : α → String) (items : List α) : List α :=
  items.mergeSort fun a b => natural (name a) (name b) != .gt

/-- Sorts names by the natural order. -/
def sortNatural (names : List String) : List String := sortByName id names

end FlowText
