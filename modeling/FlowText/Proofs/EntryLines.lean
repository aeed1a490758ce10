import FlowText.Proofs.InstLines

/-!
# The lines of a dump are read as its entries

The lines of one entry (`read_entry`), and of all entries of a view (`View.Legible.readLines`).
Where a label or a block looks like something else, a line that cannot stand there follows, so that
the reading fails: nothing is misread (`View.Legible.unambiguous`).
-/

namespace FlowText

open Reading

/-! ### Entries -/

/-- **Entries of a view.** The entry says what the view answers at an address. -/
structure EntryOf (v : View) (a : String) (e : Entry) : Prop where
  addr : e.addr = a
  number : e.number = v.number? a
  insts : Option.Rel (List.Forall₂ Inst.Respells) e.insts ((v.block? a).map Block.insts)
  exits : e.exits = v.exits a

/-- Between two entries nothing waits. -/
def Reading.after (entries : List Entry) : Reading := { entries }

theorem readLines_of_next {n : Nat} {line : List Char} {r r' : Reading}
    (h : r.next n line = .ok r') (lines : List (List Char)) :
    readLines n (line :: lines) r = readLines (n + 1) lines r' := by
  rw [readLines, h]
  rfl

/-- The lines in front of the label. -/
theorem read_preamble {v : View} {addr : String} (h : ∀ k ∈ v.number? addr, k < wordLimit)
    (entries : List Entry) (n : Nat) (lines : List (List Char)) :
    ∃ m, readLines n ((v.predText addr :: v.numberLines addr).map String.toList ++ lines)
        (.after entries) =
      readLines m lines { entries, number := v.number? addr } := by
  have hpred : Dump.predMark.toList <+: (v.predText addr).toList := by
    rw [View.predText, String.toList_append, String.toList_append, String.toList_append,
      List.append_assoc, List.append_assoc]
    exact List.prefix_append _ _
  have hnext := next_pred (r := .after entries) rfl n hpred
  rw [View.numberLines]
  cases hn : v.number? addr with
  | none =>
    refine ⟨n + 1, ?_⟩
    rw [List.map_singleton, List.singleton_append, readLines_of_next hnext]
    rfl
  | some k =>
    refine ⟨n + 1 + 1, ?_⟩
    rw [List.map_cons, List.map_singleton, List.cons_append, readLines_of_next hnext,
      List.singleton_append, readLines_of_next (next_number rfl (n + 1) (h k hn))]
    rfl

/-- The exits end the entry. -/
theorem next_exits {v : View} {addr : String} {o : OpenEntry} {r : Reading}
    (hr : r.current = some o) (hfresh : o.addr ∉ r.entries.map Entry.addr) (n : Nat) :
    r.next n (v.exitsText addr).toList =
      .ok { r with
        entries := r.entries ++ [o.flush.close (v.exits addr) n]
        current := none } := by
  have hline : (v.exitsText addr).toList =
      Dump.exitsMark.toList ++ ' ' :: (Exits.text (v.exits addr)).toList := by
    rw [View.exitsText, String.toList_append, String.toList_append, List.append_assoc]
    rfl
  have hnew : ¬ (r.entries.any (·.addr == o.addr)) = true := by
    rw [List.any_eq_true]
    rintro ⟨e, he, heq⟩
    exact hfresh (List.mem_map.2 ⟨e, he, by simpa using heq⟩)
  rw [Reading.next, hr, hline]
  simp only [behind?_append, Reading.close, Exits.read_text]
  rw [if_neg hnew]

theorem entryOf_close {v : View} {o : OpenEntry} (hn : o.number = v.number? o.addr)
    (hi : Option.Rel (List.Forall₂ Inst.Respells) (if o.missing then none else some o.flush.insts)
      ((v.block? o.addr).map Block.insts)) (n : Nat) :
    EntryOf v o.addr (o.flush.close (v.exits o.addr) n) := by
  rw [OpenEntry.flush_eq]
  exact ⟨rfl, hn, hi, rfl⟩

theorem entryLines_eq (v : View) (addr : String) :
    (v.entryLines addr).map String.toList =
      (v.predText addr :: v.numberLines addr).map String.toList ++
        (addr ++ ":").toList :: ((v.bodyLines addr).map String.toList ++
          [(v.exitsText addr).toList]) := by
  rw [View.entryLines, List.map_cons, List.map_append, List.map_cons, List.map_append]
  rfl

theorem read_exits {v : View} {addr : String} {o : OpenEntry} (ho : o.addr = addr)
    {entries : List Entry} (hfresh : addr ∉ entries.map Entry.addr) (n : Nat) :
    readLines n [(v.exitsText addr).toList] { entries, current := some o } =
      .ok (.after (entries ++ [o.flush.close (v.exits addr) n])) := by
  subst ho
  rw [readLines_singleton, next_exits rfl hfresh]
  rfl

/-- **The lines of an entry** are read as the entry. -/
theorem read_entry {v : View} {addr : String} (hlabel : IsLabel addr)
    (hnumber : ∀ k ∈ v.number? addr, k < wordLimit)
    (hblock : ∀ b ∈ v.block? addr, LegibleList b.insts ∧ ¬ Shadows b.insts)
    {entries : List Entry} (hfresh : addr ∉ entries.map Entry.addr) (n : Nat) :
    ∃ e, EntryOf v addr e ∧ readLines n ((v.entryLines addr).map String.toList) (.after entries) =
      .ok (.after (entries ++ [e])) := by
  obtain ⟨m, hm⟩ := read_preamble hnumber entries n ((addr ++ ":").toList ::
    ((v.bodyLines addr).map String.toList ++ [(v.exitsText addr).toList]))
  have hnext := next_label (r := { entries, number := v.number? addr }) rfl m hlabel
  let o : OpenEntry := { addr, start := m, number := v.number? addr }
  rw [entryLines_eq, hm, readLines_of_next hnext, readLines_append]
  rw [View.bodyLines]
  cases hb : v.block? addr with
  | none =>
    -- the placeholder is marked, and no line may follow it but the exits
    have hplace : ({ entries, current := some o } : Reading).next (m + 1)
        Dump.placeholder.toList = .ok { entries, current := some { o with missing := true } } := by
      rw [next_inside rfl (m + 1) (by decide), OpenEntry.next_placeholder rfl (m + 1) rfl rfl]
      rfl
    refine ⟨_, entryOf_close (o := { o with missing := true }) rfl ?_ (m + 1 + 1), ?_⟩
    · change Option.Rel _ none ((v.block? addr).map Block.insts)
      rw [hb]
      exact .none
    · rw [List.map_singleton, readLines_singleton, hplace]
      exact read_exits rfl hfresh _
  | some b =>
    -- nothing is read yet and nothing waits, so only a shadow could be taken for a placeholder
    obtain ⟨hlegible, hshadow⟩ := hblock b hb
    obtain ⟨js, done, waiting, hjs, hdone, hread⟩ := read_insts hlegible (o := o) rfl
      (fun hwait => absurd hwait Bool.false_ne_true) fun _ _ => hshadow
    refine ⟨_, entryOf_close (o := o.holding done waiting) rfl ?_
      (m + 1 + (b.lines.map String.toList).length), ?_⟩
    · change Option.Rel _ (some (o.holding done waiting).flush.insts)
        ((v.block? addr).map Block.insts)
      rw [hb, hdone]
      exact .some hjs
    · change readLines (m + 1) ((b.insts.flatMap Inst.lines).map String.toList) _ >>= _ = _
      rw [hread _ _ rfl]
      exact read_exits rfl hfresh _

/-! ### What is not read -/

/-- **Clear addresses.** The address is a label, and its block does not look like a missing one. -/
structure View.Clear (v : View) (a : String) : Prop where
  label : IsLabel a
  unshadowed : ∀ b ∈ v.block? a, ¬ Shadows b.insts

/-- **Guarded addresses.** If the label or the block looks like something else, a line follows that
cannot stand there. -/
structure View.Guarded (v : View) (a : String) : Prop where
  label : ¬ IsLabel a → v.number? a = none ∧ v.block? a = none
  block : ∀ b ∈ v.block? a, Shadows b.insts → 2 ≤ b.insts.length

theorem Inst.Legible.head_lines {i : Inst} (h : i.Legible) :
    ∃ line more, i.lines = line :: more ∧ ¬ Dump.exitsMark.toList <+: line.toList := by
  rw [Inst.lines]
  cases i.origins with
  | nil => exact ⟨_, _, rfl, h.no_exits⟩
  | cons p ps =>
    refine ⟨_, _, rfl, ?_⟩
    rw [String.toList_append]
    rintro ⟨rest, hs⟩
    cases hs

theorem ok_of_readLines_cons {n : Nat} {line : List Char} {lines : List (List Char)}
    {r r' : Reading} (h : readLines n (line :: lines) r = .ok r') :
    ∃ r₁, r.next n line = .ok r₁ ∧ readLines (n + 1) lines r₁ = .ok r' := by
  rw [readLines] at h
  exact ok_of_bind h

/-- Behind a line that looks like a placeholder no other instruction is read. -/
theorem not_shadows_of_readLines {insts : List Inst} (h : LegibleList insts)
    (hlen : 2 ≤ insts.length) {o : OpenEntry} (hm : o.missing = false) (hi : o.insts = [])
    (hw : o.waiting = none) {r r' : Reading} (hr : r.current = some o) {n : Nat}
    {rest : List (List Char)}
    (hread : readLines n ((insts.flatMap Inst.lines).map String.toList ++ rest) r = .ok r') :
    ¬ Shadows insts := by
  rintro ⟨i, hhead, ho, ht⟩
  match insts, h, hlen with
  | i' :: j :: more, h, _ =>
    obtain rfl : i' = i := by simpa using hhead
    -- the line behind the shadow is not that of the exits, so it is refused
    obtain ⟨line, lines, hj, hexits⟩ := (h.each j (by simp)).head_lines
    have hline : i'.lines = [Dump.placeholder] := by
      rw [Inst.lines, ho, line_of_verbatim? ht]
    have hsplit : ((i' :: j :: more).flatMap Inst.lines).map String.toList ++ rest =
        Dump.placeholder.toList :: line.toList :: ((lines ++ more.flatMap Inst.lines).map
          String.toList ++ rest) := by
      rw [List.flatMap_cons, List.flatMap_cons, hline, hj]
      simp only [List.map_append, List.map_cons, List.cons_append, List.nil_append]
    rw [hsplit] at hread
    obtain ⟨r₁, h₁, hread₁⟩ := ok_of_readLines_cons hread
    rw [next_inside hr n (by decide), OpenEntry.next_placeholder hm n hi hw] at h₁
    obtain ⟨r₂, h₂, -⟩ := ok_of_readLines_cons hread₁
    obtain rfl := Except.ok.inj h₁
    rw [next_inside rfl (n + 1) hexits, OpenEntry.next_missing rfl] at h₂
    cases h₂

/-- **Nothing is misread.** If the lines of an entry are read, the label and the block are clear. -/
theorem clear_of_readLines {v : View} {addr : String} (hg : v.Guarded addr)
    (hnumber : ∀ k ∈ v.number? addr, k < wordLimit)
    (hblock : ∀ b ∈ v.block? addr, LegibleList b.insts) {entries : List Entry} {n : Nat}
    {rest : List (List Char)} {r' : Reading}
    (hread : readLines n ((v.entryLines addr).map String.toList ++ rest) (.after entries) =
      .ok r') : v.Clear addr := by
  obtain ⟨m, hm⟩ := read_preamble hnumber entries n ((addr ++ ":").toList ::
    ((v.bodyLines addr).map String.toList ++ [(v.exitsText addr).toList] ++ rest))
  rw [entryLines_eq, List.append_assoc, List.cons_append, hm] at hread
  obtain ⟨r₁, h₁, hread₁⟩ := ok_of_readLines_cons hread
  have hlabel : IsLabel addr := by
    by_contra hne
    -- what looks like predecessors is skipped, and the placeholder behind it is refused
    obtain ⟨hnone, hmissing⟩ := hg.label hne
    obtain rfl := next_of_not_isLabel (r := { entries, number := v.number? addr }) rfl m hne h₁
    rw [View.bodyLines, hmissing] at hread₁
    obtain ⟨r₂, h₂, -⟩ := ok_of_readLines_cons hread₁
    exact next_placeholder_ne_ok rfl (m + 1) r₂ h₂
  refine ⟨hlabel, fun b hb hs => ?_⟩
  rw [next_label rfl m hlabel] at h₁
  obtain rfl := Except.ok.inj h₁
  rw [View.bodyLines, hb, List.append_assoc] at hread₁
  exact not_shadows_of_readLines (hblock b hb) (hg.block b hb hs) rfl rfl rfl rfl hread₁ hs

/-! ### All entries -/

/-- The entries of addresses, one for each, in order. -/
abbrev EntriesOf (v : View) (addrs : List String) (entries : List Entry) : Prop :=
  List.Forall₂ (EntryOf v) addrs entries

theorem map_addr_of_entriesOf {v : View} {addrs : List String} {entries : List Entry}
    (h : EntriesOf v addrs entries) : entries.map Entry.addr = addrs := by
  induction h with
  | nil => rfl
  | cons he _ ih => rw [List.map_cons, he.addr, ih]

/-- The lines of entries, with a blank line in front of each. -/
def View.linesOf (v : View) (addrs : List String) : List (List Char) :=
  (addrs.flatMap fun addr => "" :: v.entryLines addr).map String.toList

theorem linesOf_cons (v : View) (addr : String) (addrs : List String) :
    v.linesOf (addr :: addrs) =
      "".toList :: ((v.entryLines addr).map String.toList ++ v.linesOf addrs) := by
  rw [View.linesOf, List.flatMap_cons, List.map_append]
  rfl

theorem readLines_linesOf_cons (v : View) (addr : String) (addrs : List String)
    (entries : List Entry) (n : Nat) :
    readLines n (v.linesOf (addr :: addrs)) (.after entries) =
      readLines (n + 1) ((v.entryLines addr).map String.toList ++ v.linesOf addrs)
        (.after entries) := by
  rw [linesOf_cons, readLines_of_next (next_blank rfl n)]

/-- A blank line in front of the dump changes nothing but the line numbers. -/
theorem readLines_lines (v : View) :
    readLines 1 (v.lines.map String.toList) {} = readLines 0 (v.linesOf v.addrs) (.after []) := by
  rw [View.lines]
  cases v.addrs with
  | nil => rfl
  | cons first more =>
    rw [readLines_linesOf_cons, List.map_append]
    rfl

/-- The lines of the next entry, whose address was not read before. -/
theorem read_next {v : View} {a : String} {addrs : List String} (hclear : v.Clear a)
    (hnumber : ∀ k ∈ v.number? a, k < wordLimit)
    (hblock : ∀ b ∈ v.block? a, LegibleList b.insts) {entries : List Entry}
    (hfresh : (entries.map Entry.addr ++ a :: addrs).Nodup) (n : Nat) :
    ∃ e m, EntryOf v a e ∧ ((entries ++ [e]).map Entry.addr ++ addrs).Nodup ∧
      readLines n (v.linesOf (a :: addrs)) (.after entries) =
        readLines m (v.linesOf addrs) (.after (entries ++ [e])) := by
  have hnew : a ∉ entries.map Entry.addr := fun hm =>
    (List.nodup_append.1 hfresh).2.2 a hm a List.mem_cons_self rfl
  obtain ⟨e, he, hread⟩ := read_entry hclear.label hnumber
    (fun b hb => ⟨hblock b hb, hclear.unshadowed b hb⟩) hnew (n + 1)
  refine ⟨e, n + 1 + ((v.entryLines a).map String.toList).length, he, ?_, ?_⟩
  · rw [List.map_append, List.map_singleton, he.addr, List.append_assoc]
    exact hfresh
  · rw [readLines_linesOf_cons, readLines_append, hread]
    rfl

theorem read_linesOf {v : View} {addrs : List String} (hclear : ∀ a ∈ addrs, v.Clear a)
    (hnumber : ∀ a ∈ addrs, ∀ k ∈ v.number? a, k < wordLimit)
    (hblock : ∀ a ∈ addrs, ∀ b ∈ v.block? a, LegibleList b.insts) {entries : List Entry}
    (hfresh : (entries.map Entry.addr ++ addrs).Nodup) (n : Nat) :
    ∃ es, EntriesOf v addrs es ∧
      readLines n (v.linesOf addrs) (.after entries) = .ok (.after (entries ++ es)) := by
  induction addrs generalizing entries n with
  | nil => exact ⟨[], .nil, by rw [List.append_nil]; rfl⟩
  | cons a addrs ih =>
    obtain ⟨e, m, he, hfresh', hread⟩ := read_next (hclear a List.mem_cons_self)
      (hnumber a List.mem_cons_self) (hblock a List.mem_cons_self) hfresh n
    obtain ⟨es, hes, hmore⟩ := ih (fun b hb => hclear b (List.mem_cons_of_mem _ hb))
      (fun b hb => hnumber b (List.mem_cons_of_mem _ hb))
      (fun b hb => hblock b (List.mem_cons_of_mem _ hb)) hfresh' m
    refine ⟨e :: es, .cons he hes, ?_⟩
    rw [hread, hmore, List.append_assoc, List.singleton_append]

theorem clear_of_readLines_linesOf {v : View} {addrs : List String}
    (hg : ∀ a ∈ addrs, v.Guarded a) (hnumber : ∀ a ∈ addrs, ∀ k ∈ v.number? a, k < wordLimit)
    (hblock : ∀ a ∈ addrs, ∀ b ∈ v.block? a, LegibleList b.insts) {entries : List Entry}
    (hfresh : (entries.map Entry.addr ++ addrs).Nodup) {n : Nat} {r : Reading}
    (hread : readLines n (v.linesOf addrs) (.after entries) = .ok r) : ∀ a ∈ addrs, v.Clear a := by
  induction addrs generalizing entries n with
  | nil => exact fun a ha => absurd ha List.not_mem_nil
  | cons a addrs ih =>
    have hentry := hread
    rw [readLines_linesOf_cons] at hentry
    have hclear : v.Clear a := clear_of_readLines (hg a List.mem_cons_self)
      (hnumber a List.mem_cons_self) (hblock a List.mem_cons_self) hentry
    obtain ⟨e, m, -, hfresh', hstep⟩ := read_next hclear (hnumber a List.mem_cons_self)
      (hblock a List.mem_cons_self) hfresh n
    rw [hstep] at hread
    intro b hb
    rcases List.mem_cons.1 hb with rfl | hb
    · exact hclear
    · exact ih (fun c hc => hg c (List.mem_cons_of_mem _ hc))
        (fun c hc => hnumber c (List.mem_cons_of_mem _ hc))
        (fun c hc => hblock c (List.mem_cons_of_mem _ hc)) hfresh' hread b hb

/-- **The lines of a dump** are read as its entries, in order. -/
theorem View.Legible.readLines {v : View} (h : v.Legible) (hu : v.Unambiguous)
    (hn : v.addrs.Nodup) :
    ∃ es, EntriesOf v v.addrs es ∧
      Reading.readLines 1 (v.lines.map String.toList) {} = .ok (.after es) := by
  rw [readLines_lines]
  have hfresh : (([] : List Entry).map Entry.addr ++ v.addrs).Nodup := hn
  exact read_linesOf (fun a ha => ⟨hu.label a ha, hu.unshadowed a ha⟩) h.number_lt h.block hfresh 0

/-- **Nothing is misread** in a whole dump. -/
theorem View.Legible.unambiguous {v : View} (h : v.Legible) (hn : v.addrs.Nodup)
    (hg : ∀ a ∈ v.addrs, v.Guarded a) {r : Reading}
    (hread : Reading.readLines 1 (v.lines.map String.toList) {} = .ok r) : v.Unambiguous := by
  rw [readLines_lines] at hread
  have hfresh : (([] : List Entry).map Entry.addr ++ v.addrs).Nodup := hn
  have hclear := clear_of_readLines_linesOf hg h.number_lt h.block hfresh hread
  exact ⟨fun a ha => (hclear a ha).label, fun a ha => (hclear a ha).unshadowed⟩

end FlowText
