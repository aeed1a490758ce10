import FlowText.Proofs.EntryLines

/-!
# What is read from any lines

Whatever the lines of a text hold: the entries that are read from them stand at different labels,
and each of them holds what a dump can say (`Entry.Sound`). This is a property of everything that
was read so far (`Reading.Sound`), which a line keeps (`Reading.Sound.next`), and so all lines keep
it (`Reading.Sound.readLines`).

`Q` is a property of the characters of the lines. It does not hold of line feeds.
-/

namespace FlowText

open Reading

variable {Q : Char → Prop}

/-! ### Instructions so far -/

/-- **Listed.** The instructions are legible and do not look like a missing block, and their
verbatim texts are from the lines. -/
structure Listed (Q : Char → Prop) (insts : List Inst) : Prop where
  legible : LegibleList insts
  unshadowed : ¬ Shadows insts
  chars : ∀ i ∈ insts, ∀ t ∈ i.verbatim?, ∀ c ∈ t.toList, Q c

theorem listed_nil : Listed Q [] where
  legible := ⟨fun _ h => absurd h List.not_mem_nil, .nil⟩
  unshadowed := fun ⟨_, h, _⟩ => absurd h (Option.not_mem_none _)
  chars _ h := absurd h List.not_mem_nil

theorem Listed.concat {insts : List Inst} (h : Listed Q insts) {i : Inst} (hi : i.Legible)
    (hc : ∀ t ∈ i.verbatim?, ∀ c ∈ t.toList, Q c)
    (hm : ∀ j ∈ insts.getLast?, j.IsDangling → i.IsMarked)
    (hs : insts = [] → ¬ (i.origins = [] ∧ i.verbatim? = some Dump.placeholder)) :
    Listed Q (insts ++ [i]) := by
  refine ⟨⟨fun j hj => ?_, ?_⟩, ?_, fun j hj => ?_⟩
  · rcases List.mem_append.1 hj with hj | hj
    · exact h.legible.each j hj
    · exact List.mem_singleton.1 hj ▸ hi
  · refine List.isChain_append.2 ⟨h.legible.chain, .singleton i, fun j hj k hk => ?_⟩
    obtain rfl : i = k := by simpa using hk
    exact hm j hj
  · rintro ⟨j, hj, hp⟩
    cases insts with
    | nil =>
      obtain rfl : i = j := by simpa using hj
      exact hs rfl hp
    | cons k ks => exact h.unshadowed ⟨j, hj, hp⟩
  · rcases List.mem_append.1 hj with hj | hj
    · exact h.chars j hj
    · exact List.mem_singleton.1 hj ▸ hc

theorem legible_literal {t : String} (h : IsVerbatim t) : (Inst.literal t).Legible :=
  ⟨.inl rfl, .inr ⟨t, rfl, h, fun hne => absurd rfl hne⟩⟩

/-! ### Lines -/

theorem exists_of_originOf? {line : List Char} {e : Inst} (h : originOf? line = some e) :
    ∃ rest, line = Dump.originMark.toList ++ rest ∧ Inst.ofText (String.ofList rest) = .ok e := by
  obtain ⟨rest, hrest, he⟩ := Option.bind_eq_some_iff.1 h
  refine ⟨rest, dropStart?_eq_some_iff.1 hrest, ?_⟩
  cases hi : Inst.ofText (String.ofList rest) with
  | error err =>
    rw [hi] at he
    cases he
  | ok j =>
    rw [hi] at he
    cases he
    rfl

/-- The line of an origin may stand for itself. -/
theorem isVerbatim_of_originOf? {t : String} {e : Inst} (h : originOf? t.toList = some e)
    (hf : '\n' ∉ t.toList) : IsVerbatim t := by
  obtain ⟨rest, ht, -⟩ := exists_of_originOf? h
  refine ⟨hf, ?_, fun i => ofText_ne_ok_of_slash ht⟩
  rw [ht]
  rintro ⟨more, hm⟩
  cases hm

/-- **What a line holds.** It has no history; it is readable, or it stands for itself. -/
theorem instOn_cases {t : String} (hf : '\n' ∉ t.toList)
    (hx : ¬ Dump.exitsMark.toList <+: t.toList) : (instOn t).origins = [] ∧
      ((instOn t).toOperation.Readable ∨ instOn t = .literal t ∧ IsVerbatim t) := by
  rw [instOn]
  cases hi : Inst.ofText t with
  | ok i => exact ⟨(readable_of_ofText hi).2, .inl (readable_of_ofText hi).1⟩
  | error e =>
    refine ⟨rfl, .inr ⟨rfl, hf, hx, fun j hj => ?_⟩⟩
    rw [hi] at hj
    cases hj

theorem eq_of_verbatim?_instOn {t : String} (hf : '\n' ∉ t.toList)
    (hx : ¬ Dump.exitsMark.toList <+: t.toList) {u : String} (hu : u ∈ (instOn t).verbatim?) :
    u = t := by
  rcases (instOn_cases hf hx).2 with hr | ⟨hl, -⟩
  · rw [hr.verbatim?_eq_none] at hu
    cases hu
  · rw [hl] at hu
    cases hu
    rfl

/-- Whatever history it is given, what a line holds does not look like an origin. -/
theorem not_isDangling_instOn {t : String} (hf : '\n' ∉ t.toList)
    (hx : ¬ Dump.exitsMark.toList <+: t.toList) (ho : originOf? t.toList = none)
    (origins : List Operation) : ¬ ({ instOn t with origins } : Inst).IsDangling := by
  rintro ⟨-, u, hu, hline⟩
  obtain rfl := eq_of_verbatim?_instOn hf hx hu
  rw [IsOriginLine, ho] at hline
  cases hline

theorem legible_instOn {t : String} (hf : '\n' ∉ t.toList)
    (hx : ¬ Dump.exitsMark.toList <+: t.toList) (ho : originOf? t.toList = none)
    {origins : List Operation} (hor : origins = [] ∨ ∃ p, origins = [p] ∧ p.Readable) :
    ({ instOn t with origins } : Inst).Legible := by
  refine ⟨hor, (instOn_cases hf hx).2.imp_right ?_⟩
  rintro ⟨hl, hv⟩
  refine ⟨t, ?_, hv, fun _ hline => ?_⟩
  · rw [hl]
    rfl
  · rw [IsOriginLine, ho] at hline
    cases hline

namespace OpenEntry

/-- **Sound.** What was read of an entry so far. Only the last instruction may look like an origin,
and only if another one waits. -/
structure Sound (Q : Char → Prop) (o : OpenEntry) : Prop where
  label : IsLabel o.addr
  chars : ∀ c ∈ o.addr.toList, Q c
  number : ∀ k ∈ o.number, k < wordLimit
  insts : Listed Q o.insts
  last : ∀ i ∈ o.insts.getLast?, i.IsDangling → o.waiting.isSome = true
  waiting : ∀ w ∈ o.waiting, originOf? w.2.toList = some w.1 ∧ ∀ c ∈ w.2.toList, Q c

namespace Sound

variable {o : OpenEntry}

theorem flush (h : o.Sound Q) (hQ : ¬ Q '\n') : Listed Q o.flush.insts := by
  rw [OpenEntry.flush]
  split
  · next e line hw =>
    obtain ⟨ho, hc⟩ := h.waiting _ hw
    have hf : '\n' ∉ line.toList := fun hm => hQ (hc _ hm)
    refine h.insts.concat (legible_literal (isVerbatim_of_originOf? ho hf)) ?_ (fun j _ _ => ?_)
      fun _ hp => ?_
    · rintro t ⟨⟩
      exact hc
    · exact .inr ⟨rfl, line, rfl, by rw [IsOriginLine, ho]; rfl⟩
    · obtain rfl : line = Dump.placeholder := by simpa using Option.some.inj hp.2
      rw [originOf?_placeholder] at ho
      cases ho
  · exact h.insts

/-- An instruction that is not dangling is added, and nothing waits any more. -/
theorem concat (h : o.Sound Q) {i : Inst} (hi : Listed Q (o.insts ++ [i])) (hd : ¬ i.IsDangling) :
    ({ o with insts := o.insts ++ [i], waiting := none } : OpenEntry).Sound Q := by
  refine ⟨h.label, h.chars, h.number, hi, fun j hj hdj => ?_,
    fun w h => absurd h (Option.not_mem_none w)⟩
  obtain rfl : i = j := by simpa using hj
  exact absurd hdj hd

/-- A line that holds no origin is added, with the origin that waits. -/
theorem add (h : o.Sound Q) (hQ : ¬ Q '\n') {t : String} (ht : ∀ c ∈ t.toList, Q c)
    (hx : ¬ Dump.exitsMark.toList <+: t.toList) (ho : originOf? t.toList = none)
    (hp : ¬ (t = Dump.placeholder ∧ o.insts.isEmpty = true ∧ o.waiting.isNone = true)) :
    (o.add (instOn t)).Sound Q := by
  have hf : '\n' ∉ t.toList := fun hm => hQ (ht _ hm)
  have hchars : ∀ u ∈ (instOn t).verbatim?, ∀ c ∈ u.toList, Q c := fun u hu =>
    eq_of_verbatim?_instOn hf hx hu ▸ ht
  rw [OpenEntry.add]
  cases hw : o.waiting with
  | none =>
    have hor := (instOn_cases hf hx).1
    have hlist : Listed Q (o.insts ++ [instOn t]) := by
      refine h.insts.concat (legible_instOn hf hx ho (.inl hor)) hchars (fun j hj hd => ?_)
        fun hnil hp' => ?_
      · have hwait := h.last j hj hd
        rw [hw] at hwait
        cases hwait
      · exact hp ⟨(eq_of_verbatim?_instOn hf hx hp'.2).symm, List.isEmpty_iff.2 hnil,
          Option.isNone_iff_eq_none.2 hw⟩
    exact h.concat hlist (not_isDangling_instOn hf hx ho _)
  | some w =>
    -- the line that waits becomes the only earlier stage
    obtain ⟨hwo, -⟩ := h.waiting w hw
    obtain ⟨rest, -, hrest⟩ := exists_of_originOf? hwo
    obtain ⟨hread, hnil⟩ := readable_of_ofText hrest
    have hset : (instOn t).setOrigin w.1 = { instOn t with origins := [w.1.toOperation] } := by
      rw [Inst.setOrigin, hnil]
    dsimp only
    rw [hset]
    refine h.concat ?_ (not_isDangling_instOn hf hx ho _)
    exact h.insts.concat (legible_instOn hf hx ho (.inr ⟨_, rfl, hread⟩)) hchars
      (fun _ _ _ => .inl (List.cons_ne_nil _ _)) fun _ hp' => List.cons_ne_nil _ _ hp'.1

/-- **A line inside an entry.** -/
theorem next (h : o.Sound Q) (hQ : ¬ Q '\n') {n : Nat} {line : List Char}
    (hline : ∀ c ∈ line, Q c) (hx : ¬ Dump.exitsMark.toList <+: line) {o' : OpenEntry}
    (hn : o.next n line = .ok o') : o'.Sound Q := by
  rw [OpenEntry.next] at hn
  dsimp only at hn
  split at hn
  · cases hn
  split at hn
  · cases hn
    exact ⟨h.label, h.chars, h.number, h.insts, h.last, h.waiting⟩
  · next hp =>
    split at hn
    · next earlier ho =>
      cases hn
      rw [flush_eq]
      refine ⟨h.label, h.chars, h.number, h.flush hQ, fun _ _ _ => rfl, ?_⟩
      rintro w ⟨⟩
      rw [String.toList_ofList]
      exact ⟨ho, hline⟩
    · next ho =>
      cases hn
      refine h.add hQ ?_ ?_ ?_ hp
      all_goals rw [String.toList_ofList]
      · exact hline
      · exact hx
      · exact ho

end Sound

end OpenEntry

/-! ### Entries so far -/

/-- **Sound.** What is read as an entry. -/
structure Entry.Sound (Q : Char → Prop) (e : Entry) : Prop where
  label : IsLabel e.addr
  chars : ∀ c ∈ e.addr.toList, Q c
  number : ∀ k ∈ e.number, k < wordLimit
  insts : ∀ is ∈ e.insts, Listed Q is
  exits : ∀ x ∈ e.exits, ∀ c ∈ x.2.toList, Q c

theorem OpenEntry.Sound.close {o : OpenEntry} (h : o.Sound Q) (hQ : ¬ Q '\n') {exits : List Exit}
    (hx : ∀ x ∈ exits, ∀ c ∈ x.2.toList, Q c) (n : Nat) : (o.flush.close exits n).Sound Q := by
  have hflush := h.flush hQ
  rw [OpenEntry.flush_eq]
  refine ⟨h.label, h.chars, h.number, fun is his => ?_, hx⟩
  change is ∈ (if o.missing then none else some o.flush.insts) at his
  split at his
  · cases his
  · cases his
    exact hflush

theorem lt_of_count? {cs : List Char} {k : Nat} (h : count? cs = some k) : k < wordLimit := by
  rw [count?] at h
  dsimp only at h
  generalize (if cs.head? = some '+' then cs.tail else cs) = digits at h
  split at h
  · cases h
  · split at h
    · next hlt =>
      cases h
      exact hlt
    · cases h

/-- The address that is read from a line is a label, if no mark stands in front of it. -/
theorem label?_eq_some {line : List Char} {addr : String} (h : label? line = some addr) :
    line = addr.toList ++ [':'] ∧ addr.toList.head?.any (fun c => !isBlank c) = true := by
  rw [label?] at h
  split at h
  · next c cs hd =>
    split at h
    · cases h
    · next hb =>
      cases h
      rw [String.toList_ofList]
      exact ⟨dropEnding?_eq_some_iff.1 hd, by simpa using hb⟩
  · cases h

namespace Reading

/-- **Sound.** What was read so far. -/
structure Sound (Q : Char → Prop) (r : Reading) : Prop where
  entries : ∀ e ∈ r.entries, e.Sound Q
  distinct : (r.entries.map Entry.addr).Nodup
  current : ∀ o ∈ r.current, o.Sound Q
  number : ∀ k ∈ r.number, k < wordLimit

theorem sound_start : ({} : Reading).Sound Q where
  entries _ h := absurd h List.not_mem_nil
  distinct := .nil
  current o h := absurd h (Option.not_mem_none o)
  number k h := absurd h (Option.not_mem_none k)

namespace Sound

variable {r r' : Reading} {n : Nat} {line : List Char}

theorem between (h : r.Sound Q) (hline : ∀ c ∈ line, Q c) (hn : r.between n line = .ok r') :
    r'.Sound Q := by
  rw [Reading.between] at hn
  split at hn
  · cases hn
    exact h
  next hskip =>
  have hpred : ¬ Dump.predMark.toList <+: line := by
    rintro ⟨rest, rfl⟩
    exact hskip (by rw [behind?_append, Option.isSome_some, Bool.or_true])
  split at hn
  · split at hn
    · next k hk =>
      cases hn
      exact ⟨h.entries, h.distinct, h.current, fun j hj => Option.some.inj hj ▸ lt_of_count? hk⟩
    · cases hn
  next hnumber =>
  split at hn
  · next addr ha =>
    cases hn
    refine ⟨h.entries, h.distinct, ?_, fun k hk => absurd hk (Option.not_mem_none k)⟩
    rintro o ⟨⟩
    obtain ⟨rfl, hhead⟩ := label?_eq_some ha
    refine ⟨⟨hhead, hpred, ?_⟩, fun c hc => hline c (List.mem_append_left _ hc), h.number,
      listed_nil, fun i hi => absurd hi (Option.not_mem_none i),
      fun w hw => absurd hw (Option.not_mem_none w)⟩
    rintro ⟨rest, hrest⟩
    rw [← hrest, behind?_append] at hnumber
    cases hnumber
  · cases hn

theorem close (h : r.Sound Q) (hQ : ¬ Q '\n') {o : OpenEntry} (ho : o.Sound Q)
    {text : List Char} (ht : ∀ c ∈ text, Q c) (hn : r.close o n text = .ok r') : r'.Sound Q := by
  rw [Reading.close] at hn
  split at hn
  · cases hn
  · next exits hx =>
    split at hn
    · cases hn
    · next hnew =>
      cases hn
      have he : (o.flush.close exits n).Sound Q :=
        ho.close hQ (fun x hm c hc => ht c (Exits.subset_of_read hx x hm hc)) n
      have haddr : (o.flush.close exits n).addr = o.addr := by
        rw [OpenEntry.flush_eq]
        rfl
      refine ⟨fun e hm => ?_, ?_, fun o ho => absurd ho (Option.not_mem_none o), h.number⟩
      · rcases List.mem_append.1 hm with hm | hm
        · exact h.entries e hm
        · exact List.mem_singleton.1 hm ▸ he
      · rw [List.map_append, List.map_singleton, haddr, List.nodup_append]
        -- an entry whose address was read before is refused
        refine ⟨h.distinct, List.nodup_singleton _, fun a ha b hb hab => hnew ?_⟩
        obtain ⟨e, hm, hea⟩ := List.mem_map.1 ha
        rw [List.mem_singleton.1 hb] at hab
        exact List.any_eq_true.2 ⟨e, hm, beq_iff_eq.2 (hea.trans hab)⟩

/-- **A line.** -/
theorem next (h : r.Sound Q) (hQ : ¬ Q '\n') (hline : ∀ c ∈ line, Q c)
    (hn : r.next n line = .ok r') : r'.Sound Q := by
  rw [Reading.next] at hn
  split at hn
  · exact h.between hline hn
  · next o ho =>
    split at hn
    · next text ht =>
      have htext := dropStart?_eq_some_iff.1 ht
      exact h.close hQ (h.current o ho)
        (fun c hc => hline c (htext ▸ List.mem_append_right _ hc)) hn
    · next hx =>
      obtain ⟨o', ho', hr'⟩ := ok_of_bind hn
      cases hr'
      refine ⟨h.entries, h.distinct, ?_, h.number⟩
      rintro o'' ⟨⟩
      refine (h.current o ho).next hQ hline ?_ ho'
      rintro ⟨rest, rfl⟩
      rw [behind?_append] at hx
      cases hx

/-- **All lines.** -/
theorem readLines {lines : List (List Char)} (h : r.Sound Q) (hQ : ¬ Q '\n')
    (hlines : ∀ line ∈ lines, ∀ c ∈ line, Q c) (hn : Reading.readLines n lines r = .ok r') :
    r'.Sound Q := by
  induction lines generalizing n r with
  | nil =>
    cases hn
    exact h
  | cons line lines ih =>
    obtain ⟨r₁, h₁, hr⟩ := ok_of_readLines_cons hn
    exact ih (h.next hQ (hlines line List.mem_cons_self) h₁)
      (fun l hl => hlines l (List.mem_cons_of_mem _ hl)) hr

end Sound

end Reading

end FlowText
