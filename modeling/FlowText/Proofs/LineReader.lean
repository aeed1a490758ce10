import FlowText.Dump.Read
import Mathlib

/-!
# The reader without its log

What is logged while a dump is read has no influence on what is read. `Settles m x` says that `m`
ends as `x` whatever was logged before; the reader settles as `readLines`, which goes through the
lines one by one and logs nothing (`result_readDump`).
-/

namespace FlowText

/-- **Settles.** The computation ends so, whatever was logged before. -/
def Settles {α : Type} (m : Logged α) (x : Except Error α) : Prop :=
  ∀ log : Log, ((ExceptT.run m).run log).1 = x

section Laws

variable {α β : Type}

theorem settles_pure (a : α) : Settles (pure a) (.ok a) := fun _ => rfl

theorem settles_throw (e : Error) : Settles (throw e : Logged α) (.error e) := fun _ => rfl

theorem settles_lift (x : Except Error α) : Settles (liftM x) x := by
  intro log
  cases x <;> rfl

theorem settles_log (line : LogLine) : Settles (log line) (.ok ()) := fun _ => rfl

theorem Settles.bind {m : Logged α} {f : α → Logged β} {x : Except Error α}
    {g : α → Except Error β} (hm : Settles m x) (hf : ∀ a, Settles (f a) (g a)) :
    Settles (m >>= f) (x >>= g) := by
  intro log
  have hx := hm log
  rw [ExceptT.run_bind, StateT.run_bind]
  rcases hp : (ExceptT.run m).run log with ⟨y, log'⟩
  rw [hp] at hx
  change y = x at hx
  subst hx
  cases y with
  | error e => rfl
  | ok a => exact hf a log'

end Laws

/-! ### Lines -/

/-- The instruction on a line, or the line as it stands. -/
def instOn (line : String) : Inst :=
  match Inst.ofText line with
  | .ok i => i
  | .error _ => .literal line

namespace OpenEntry

/-- Reads a line inside an entry that is not its last one. -/
def next (o : OpenEntry) (n : Nat) (line : List Char) : Except Error OpenEntry :=
  let text := String.ofList line
  if o.missing then .error (.parse n (.dump (.afterPlaceholder o.addr)))
  else if text = Dump.placeholder ∧ o.insts.isEmpty ∧ o.waiting.isNone then
    .ok { o with missing := true }
  else match Reading.originOf? line with
    | some earlier => .ok { o.flush with waiting := some (earlier, text) }
    | none => .ok (o.add (instOn text))

end OpenEntry

namespace Reading

/-- Reads a line. -/
def next (r : Reading) (n : Nat) (line : List Char) : Except Error Reading :=
  match r.current with
  | none => r.between n line
  | some o =>
    match behind? Dump.exitsMark line with
    | some text => r.close o n text
    | none => do return { r with current := some (← o.next n line) }

/-- Reads lines, the first of which has the number `n`. -/
def readLines (n : Nat) : List (List Char) → Reading → Except Error Reading
  | [], r => .ok r
  | line :: lines, r => do readLines (n + 1) lines (← r.next n line)

theorem readLines_append (n : Nat) (ls ms : List (List Char)) (r : Reading) :
    readLines n (ls ++ ms) r = readLines n ls r >>= readLines (n + ls.length) ms := by
  induction ls generalizing n r with
  | nil => rfl
  | cons l ls ih =>
    rw [List.cons_append, readLines, readLines]
    cases r.next n l with
    | error e => rfl
    | ok r' =>
      change readLines (n + 1) (ls ++ ms) r' = readLines (n + 1) ls r' >>= _
      rw [ih, List.length_cons, Nat.add_right_comm, Nat.add_assoc]

/-! ### The reader settles -/

theorem settles_instOf (n : Nat) (line : String) : Settles (instOf n line) (.ok (instOn line)) := by
  rw [instOf, instOn, onLine]
  cases Inst.ofText line with
  | ok i => exact settles_pure i
  | error e => exact (settles_log _).bind fun _ => settles_pure (Inst.literal line)

theorem settles_inside (o : OpenEntry) (n : Nat) (line : List Char) :
    Settles (inside o n line) (o.next n line) := by
  rw [inside, OpenEntry.next]
  dsimp only
  by_cases hm : o.missing = true
  · rw [if_pos hm, if_pos hm]
    exact settles_throw _
  rw [if_neg hm, if_neg hm]
  by_cases hp : String.ofList line = Dump.placeholder ∧ o.insts.isEmpty = true ∧
      o.waiting.isNone = true
  · rw [if_pos hp, if_pos hp]
    exact settles_pure _
  rw [if_neg hp, if_neg hp]
  cases originOf? line with
  | some earlier => exact settles_pure _
  | none => exact (settles_instOf n _).bind fun i => settles_pure (o.add i)

theorem settles_step (r : Reading) (n : Nat) (line : List Char) :
    Settles (step r n line) (r.next n line) := by
  rw [step, next]
  cases r.current with
  | none => exact settles_lift _
  | some o =>
    dsimp only
    cases behind? Dump.exitsMark line with
    | some text => exact settles_lift _
    | none =>
      exact (settles_inside o n line).bind fun o => settles_pure { r with current := some o }

theorem settles_readLines (k : Nat) (ls : List (List Char)) (r : Reading) :
    Settles ((ls.zipIdx k).foldlM (fun r (line, i) => step r (i + 1) line) r)
      (readLines (k + 1) ls r) := by
  induction ls generalizing k r with
  | nil => exact settles_pure r
  | cons l ls ih =>
    rw [List.zipIdx_cons, List.foldlM_cons, readLines]
    exact (settles_step r (k + 1) l).bind fun r' => ih (k + 1) r'

/-- What is finished has all entries that were read. -/
theorem eq_of_finish {r : Reading} {n : Nat} {entries : List Entry} (h : r.finish n = .ok entries) :
    entries = r.entries := by
  rw [finish] at h
  split at h
  · cases h
  · exact (Except.ok.inj h).symm

end Reading

theorem settles_readEntries (text : String) : Settles (readEntries text) (do
    let r ← Reading.readLines 1 (lines text.toList) {}
    r.finish (lines text.toList).length) :=
  (Reading.settles_readLines 0 _ {}).bind fun _ => settles_lift _

/-- **The reader without its log.** The lines are read, then the entries, then the graph. -/
theorem result_readDump (text : String) :
    (readDump text).result.1 = (do
      let r ← Reading.readLines 1 (lines text.toList) {}
      let entries ← r.finish (lines text.toList).length
      Entry.graph entries) := by
  have hdump := (settles_readEntries text).bind fun entries =>
    (settles_lift (Entry.graph entries)).bind fun g =>
    (settles_log (debug s!"Read {g.nodeCount} CFG nodes and {g.edgeCount} edges")).bind fun _ =>
      settles_pure g
  have hresult := hdump #[]
  change (readDump text).result.1 = _ at hresult
  rw [hresult]
  cases Reading.readLines 1 (lines text.toList) {} with
  | error e => rfl
  | ok r =>
    change (r.finish _ >>= _) = (r.finish _ >>= _)
    cases r.finish (lines text.toList).length with
    | error e => rfl
    | ok entries =>
      change (Entry.graph entries >>= _) = Entry.graph entries
      cases Entry.graph entries <;> rfl

end FlowText
