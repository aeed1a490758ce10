import FlowText.Proofs.Connecting
import FlowText.Proofs.NodeChanges
import FlowText.Proofs.Sections

/-!
# Errors of the reader

A text that is not read has a line on which it is no dump. The lines that entries start and end on
are lines that were read (`Reading.Within`), and no error names any other line
(`located_of_readDump`). What is done to the graph meanwhile is never refused: each label is new
when its node is added (`Entry.foldlM_tryAdd`), and each node is there when it is needed
(`Entry.parse_of_graph`). Nor are the parts of a compound (`Chain.ofItems_items`).
-/

namespace FlowText

open Reading

/-- **Located.** The error tells of a line that could not be read, and there is such a line. -/
def Error.LocatedIn (e : Error) (count : Nat) : Prop :=
  ∃ n cause, e = .parse n cause ∧ 1 ≤ n ∧ n ≤ count

theorem error_of_bind {ε α β : Type} {x : Except ε α} {f : α → Except ε β} {e : ε}
    (h : x >>= f = .error e) : x = .error e ∨ ∃ a, x = .ok a ∧ f a = .error e := by
  cases x with
  | error e' =>
    cases h
    exact .inl rfl
  | ok a => exact .inr ⟨a, rfl, h⟩

namespace Reading

variable {r r' : Reading} {n : Nat}

/-! ### One line -/

theorem error_of_between {line : List Char} {e : Error} (h : r.between n line = .error e) :
    ∃ cause, e = .parse n cause := by
  rw [between] at h
  split at h
  · cases h
  split at h
  · split at h
    · cases h
    · exact ⟨_, (Except.error.inj h).symm⟩
  split at h
  · cases h
  · exact ⟨_, (Except.error.inj h).symm⟩

/-- A line that cannot be read is the one that is wrong, or the label above it is. -/
theorem error_of_next {line : List Char} {e : Error} (h : r.next n line = .error e) :
    ∃ m cause, e = .parse m cause ∧ (m = n ∨ ∃ o ∈ r.current, m = o.start) := by
  rw [next] at h
  split at h
  · obtain ⟨cause, he⟩ := error_of_between h
    exact ⟨n, cause, he, .inl rfl⟩
  next o ho =>
  split at h
  · rw [close] at h
    split at h
    · exact ⟨n, _, (Except.error.inj h).symm, .inl rfl⟩
    split at h
    · exact ⟨o.start, _, (Except.error.inj h).symm, .inr ⟨o, ho, rfl⟩⟩
    · cases h
  · rcases error_of_bind h with h | ⟨o', -, h⟩
    · rw [OpenEntry.next] at h
      dsimp only at h
      split at h
      · exact ⟨n, _, (Except.error.inj h).symm, .inl rfl⟩
      split at h
      · cases h
      split at h <;> cases h
    · cases h

/-! ### All lines -/

/-- **Within.** The entries start and end on lines that were read. -/
structure Within (r : Reading) (count : Nat) : Prop where
  entries : ∀ e ∈ r.entries, 1 ≤ e.exitsLine ∧ e.exitsLine ≤ count
  current : ∀ o ∈ r.current, 1 ≤ o.start ∧ o.start ≤ count

theorem within_start : ({} : Reading).Within 0 where
  entries _ h := absurd h List.not_mem_nil
  current o h := absurd h (Option.not_mem_none o)

/-- **A line.** No line behind it is named by what is kept. -/
theorem Reads.within {line : String} (h : Reads (n + 1) line r r') (hr : r.Within n) :
    r'.Within (n + 1) := by
  have hentries : ∀ e ∈ r.entries, 1 ≤ e.exitsLine ∧ e.exitsLine ≤ n + 1 := fun e he =>
    ⟨(hr.entries e he).1, Nat.le_succ_of_le (hr.entries e he).2⟩
  have hcurrent : ∀ o ∈ r.current, 1 ≤ o.start ∧ o.start ≤ n + 1 := fun o ho =>
    ⟨(hr.current o ho).1, Nat.le_succ_of_le (hr.current o ho).2⟩
  cases h with
  | idle => exact ⟨hentries, hcurrent⟩
  | number => exact ⟨hentries, hcurrent⟩
  | label =>
    refine ⟨hentries, ?_⟩
    rintro o ⟨⟩
    exact ⟨Nat.le_add_left 1 n, Nat.le_refl _⟩
  | inside hc _ ho =>
    refine ⟨hentries, ?_⟩
    rintro o ⟨⟩
    rw [(OpenEntry.next_keeps ho).2.1]
    exact hcurrent _ hc
  | exits =>
    refine ⟨List.forall_mem_append.2 ⟨hentries, List.forall_mem_singleton.2 ?_⟩,
      fun o ho => absurd ho (Option.not_mem_none o)⟩
    exact ⟨Nat.le_add_left 1 n, Nat.le_refl _⟩

/-- **All lines.** What is read stays within them, and an error is located in them. -/
theorem within_readLines {ls : List String} (hr : r.Within n) :
    (∀ r', readLines (n + 1) (ls.map String.toList) r = .ok r' → r'.Within (n + ls.length)) ∧
      ∀ e, readLines (n + 1) (ls.map String.toList) r = .error e → e.LocatedIn (n + ls.length) := by
  induction ls generalizing n r with
  | nil =>
    refine ⟨fun r' h => ?_, fun e h => ?_⟩
    · cases h
      exact hr
    · cases h
  | cons line ls ih =>
    have hlength : n + (line :: ls).length = n + 1 + ls.length := by
      rw [List.length_cons]
      omega
    rw [hlength, List.map_cons, readLines]
    cases hn : r.next (n + 1) line.toList with
    | ok r₁ => exact ih ((reads_of_next hn).within hr)
    | error e =>
      refine ⟨fun r' h => (by cases h), fun e' he' => ?_⟩
      obtain rfl := Except.error.inj he'
      obtain ⟨m, cause, rfl, hm⟩ := error_of_next hn
      refine ⟨m, cause, rfl, ?_⟩
      rcases hm with rfl | ⟨o, ho, rfl⟩
      · omega
      · have := hr.current o ho
        omega

end Reading

/-! ### Graphs -/

namespace Entry

/-- Adds the node of an entry by way of operations that may refuse it. -/
def tryAdd (g : Cfg) (e : Entry) : Except GraphError Cfg := do
  let g ← match e.insts with
    | some insts => (g.addBlock ⟨e.addr, insts⟩).map Prod.snd
    | none => .ok (g.ensureNode e.addr).2
  g.setNumber e.addr e.number

/-- A number is set where a node is. -/
theorem setNumber_of_nodeId? {g : Cfg} {addr : String} {v : NodeId} (h : g.nodeId? addr = some v)
    (number : Option Nat) :
    g.setNumber addr number = .ok (g.modifyNode v fun n => { n with number }) := by
  rw [Cfg.setNumber, h]

/-- A node for an address that had none is known, and holds nothing. -/
theorem ensureNode_fresh {g : Cfg} {addr : String} (h : addr ∉ g.nodes.map Node.addr) :
    (g.ensureNode addr).2.nodeId? addr = some (g.ensureNode addr).1 ∧
      ∀ n, (g.ensureNode addr).2.nodes[(g.ensureNode addr).1.index]? = some n → n = { addr } := by
  refine ⟨g.nodeId?_ensureNode addr, fun n hn => ?_⟩
  obtain ⟨m, hm, hma⟩ := Cfg.nodeId?_eq_some_iff.1 (g.nodeId?_ensureNode addr)
  obtain rfl : m = n := Option.some.inj (hm.symm.trans hn)
  have hmem := List.mem_of_getElem? hm
  rw [Cfg.nodes_ensureNode] at hmem
  rcases mem_touch hmem with hmem | rfl
  · exact absurd (hma ▸ List.mem_map_of_mem hmem) h
  · rfl

/-- **A new node is not refused.** -/
theorem tryAdd_eq {g : Cfg} {e : Entry} (h : e.addr ∉ g.nodes.map Node.addr) :
    e.tryAdd g = .ok (addTo g e) := by
  obtain ⟨hid, hfresh⟩ := ensureNode_fresh h
  have hadd : addTo g e = (g.ensureNode e.addr).2.modifyNode (g.ensureNode e.addr).1 fun n =>
      { n with block := e.insts.map (Block.mk e.addr), number := e.number } := rfl
  rw [tryAdd, hadd]
  cases e.insts with
  | none =>
    -- the node had no block before
    refine (setNumber_of_nodeId? hid e.number).trans (congrArg Except.ok (Cfg.modifyNode_congr ?_))
    intro n hn
    rw [hfresh n hn]
    rfl
  | some insts =>
    have hblock : g.block? e.addr = none := by
      rw [Cfg.block?, Cfg.node?, Cfg.nodeId?_eq_none_iff.2 h]
      rfl
    have hstored : g.addBlock ⟨e.addr, insts⟩ = .ok ((g.ensureNode e.addr).1,
        (g.ensureNode e.addr).2.modifyNode (g.ensureNode e.addr).1 fun n =>
          { n with block := some ⟨e.addr, insts⟩ }) := by
      rw [Cfg.addBlock, hblock]
      rfl
    have hkept : ((g.ensureNode e.addr).2.modifyNode (g.ensureNode e.addr).1 fun n =>
        { n with block := some ⟨e.addr, insts⟩ }).nodeId? e.addr = some (g.ensureNode e.addr).1 :=
      ((Cfg.sameShape_modifyNode _ _ _).nodeId? e.addr).trans hid
    change (g.addBlock ⟨e.addr, insts⟩).map Prod.snd >>= (fun g => g.setNumber e.addr e.number) = _
    rw [hstored]
    refine (setNumber_of_nodeId? hkept e.number).trans (congrArg Except.ok ?_)
    refine Cfg.eq_of_nodes ?_ rfl rfl
    rw [Cfg.nodes_modifyNode_eq_modify, Cfg.nodes_modifyNode_eq_modify,
      Cfg.nodes_modifyNode_eq_modify, List.modify_modify_eq]
    rfl

/-- **No new node is refused.** -/
theorem foldlM_tryAdd {entries : List Entry} {g : Cfg}
    (h : (g.nodes.map Node.addr ++ entries.map addr).Nodup) :
    entries.foldlM tryAdd g = .ok (entries.foldl addTo g) := by
  induction entries generalizing g with
  | nil => rfl
  | cons e entries ih =>
    have hnew : e.addr ∉ g.nodes.map Node.addr := fun hm =>
      (List.nodup_append.1 h).2.2 _ hm e.addr List.mem_cons_self rfl
    rw [List.foldlM_cons, tryAdd_eq hnew]
    refine ih ?_
    rw [nodes_addTo hnew, List.map_append, List.append_assoc]
    exact h

end Entry

/-- A line of exits that is no list of conditions and targets. -/
theorem Entry.error_of_foldlM {e : Entry} {exits : List Exit} {g : Cfg} {err : Error}
    (h : exits.foldlM e.connect g = .error err) : ∃ cause, err = .parse e.exitsLine cause := by
  induction exits generalizing g with
  | nil => cases h
  | cons x exits ih =>
    rw [List.foldlM_cons] at h
    rcases error_of_bind h with h | ⟨g₁, -, h⟩
    · rcases error_of_bind (x := e.condOf x) h with h | ⟨c, -, h⟩
      · rw [condOf] at h
        cases hx : x.1 with
        | none =>
          rw [hx] at h
          cases h
        | some t =>
          rw [hx, Option.mapM_some, onLine] at h
          cases ht : Cond.ofText t with
          | ok c =>
            rw [ht] at h
            cases h
          | error cause =>
            rw [ht] at h
            exact ⟨_, (Except.error.inj h).symm⟩
      · cases h
    · exact ih h

theorem Entry.error_of_foldlM_foldlM {entries : List Entry} {g : Cfg} {err : Error}
    (h : entries.foldlM (fun g e => e.exits.foldlM e.connect g) g = .error err) :
    ∃ e ∈ entries, ∃ cause, err = .parse e.exitsLine cause := by
  induction entries generalizing g with
  | nil => cases h
  | cons e entries ih =>
    rw [List.foldlM_cons] at h
    rcases error_of_bind h with h | ⟨g₁, -, h⟩
    · exact ⟨e, List.mem_cons_self, error_of_foldlM h⟩
    · obtain ⟨f, hf, hcause⟩ := ih h
      exact ⟨f, List.mem_cons_of_mem _ hf, hcause⟩

/-- **Nothing is refused.** A graph is not made of entries only if one of their conditions is
none. -/
theorem Entry.parse_of_graph {entries : List Entry} (hn : (entries.map Entry.addr).Nodup)
    {err : Error} (h : Entry.graph entries = .error err) :
    ∃ e ∈ entries, ∃ cause, err = .parse e.exitsLine cause := by
  cases hg :
      entries.foldlM (fun g e => e.exits.foldlM e.connect g) (entries.foldl addTo .empty) with
  | error e =>
    have herr : Entry.graph entries = .error e := by
      change (entries.foldlM _ (entries.foldl addTo .empty) >>= _) = _
      rw [hg]
      rfl
    obtain rfl := Except.error.inj (h.symm.trans herr)
    exact error_of_foldlM_foldlM hg
  | ok g =>
    rw [graph_of_connect hg] at h
    split at h
    · next e he =>
      obtain ⟨g', hg', -⟩ := Cfg.exists_setEntry
        ((joined_of_connect hn hg).mem_nodes hn (List.mem_of_find?_eq_some he))
      rw [hg'] at h
      cases h
    · cases h

/-! ### Compounds -/

/-- The sequence of a chain starts with a condition, and what comes behind it makes up the rest of
the chain. -/
theorem Chain.exists_items (chain : Chain) : ∃ c rest, chain.items = .cond c :: rest ∧
    rest.length % 2 = 0 ∧ ∀ position more, (single c).extend position (rest ++ more) =
      chain.extend (position + rest.length) more := by
  cases chain with
  | single c => exact ⟨c, [], rfl, rfl, fun _ _ => rfl⟩
  | join chain op d =>
    obtain ⟨c, rest, hitems, heven, hextend⟩ := chain.exists_items
    refine ⟨c, rest ++ [.connective op, .cond d], by rw [items, hitems]; rfl, ?_,
      fun position more => ?_⟩
    · rw [List.length_append, List.length_cons, List.length_singleton]
      omega
    · rw [List.append_assoc, hextend, List.length_append]
      rfl

/-- **No compound is refused.** The conditions and connectives of a chain alternate. -/
theorem Chain.ofItems_items (chain : Chain) : ofItems chain.items = .ok chain := by
  obtain ⟨c, rest, hitems, heven, hextend⟩ := chain.exists_items
  have hodd : ¬ (chain.items.length % 2 = 0) := by
    rw [hitems, List.length_cons]
    omega
  have hrest := hextend 1 []
  rw [List.append_nil] at hrest
  unfold ofItems
  rw [if_neg hodd, hitems]
  exact hrest.trans (by rw [extend])

/-! ### Texts -/

/-- **Every error is located.** -/
theorem located_of_readDump {text : String} {e : Error} (h : (readDump text).result.1 = .error e) :
    e.LocatedIn (textLines text).length := by
  have hlength : (lines text.toList).length = (textLines text).length :=
    (List.length_map _).symm
  obtain ⟨hok, herror⟩ := @within_readLines {} 0 (textLines text) within_start
  rw [Nat.zero_add, ← lines_eq_textLines] at hok herror
  rw [result_readDump] at h
  rcases error_of_bind h with h | ⟨r, hr, h⟩
  · rw [Nat.zero_add] at herror
    exact herror e h
  have hwithin := hok r hr
  rw [Nat.zero_add] at hwithin
  rcases error_of_bind h with h | ⟨entries, hentries, h⟩
  -- the last line comes behind the label that it is missed for
  · rw [finish] at h
    split at h
    · next o ho =>
      obtain rfl := Except.error.inj h
      have := hwithin.current o ho
      exact ⟨_, _, rfl, hlength ▸ Nat.le_trans this.1 this.2, Nat.le_of_eq hlength⟩
    · cases h
  · obtain ⟨entry, hm, cause, rfl⟩ := Entry.parse_of_graph (nodup_of_finish hr hentries) h
    obtain rfl := eq_of_finish hentries
    exact ⟨_, cause, rfl, hwithin.entries entry hm⟩

end FlowText
