import FlowText.Proofs.Alternation

/-!
# Conditions as plain items

Here a compound is a list of items, and nothing keeps them in order: only `PlainCond.ofItems` looks
at them, while joining, negating and reading put items together as they come. `PlainCond.Made` says
what can be made in this way, in any number of steps. All of it alternates at every depth, so that
the check would never have refused anything: what can be made are the conditions of the library
(`PlainCond.made_iff`), and every operation on them is the one on items (`compounds_alternate`).
-/

namespace FlowText

open Token (lparen rparen)

mutual

/-- A condition whose compounds are lists of items. -/
inductive PlainCond where
  | simple (lhs : Expr) (op : Comparison) (rhs : Expr)
  | compound (items : List PlainItem)

/-- An item of a compound. -/
inductive PlainItem where
  | cond (c : PlainCond)
  | connective (l : Connective)

end

/-- The item is a condition. -/
def PlainItem.isCond : PlainItem → Bool
  | cond _ => true
  | connective _ => false

namespace PlainCond

/-- **The check.** The items are looked at one by one, and are kept as they are. -/
def ofItems (items : List PlainItem) : Except Defect PlainCond :=
  if items.length % 2 = 0 then .error (.evenItems items.length)
  else match items.zipIdx.find? fun (item, i) => item.isCond != (i % 2 == 0) with
    | some (_, i) => .error (.notAlternating i)
    | none => .ok (.compound items)

/-- Two conditions joined by a connective. -/
def pair (c : PlainCond) (l : Connective) (d : PlainCond) : PlainCond :=
  .compound [.cond c, .connective l, .cond d]

/-- One more condition behind the items of a compound. -/
def push (items : List PlainItem) (l : Connective) (c : PlainCond) : List PlainItem :=
  items ++ [.connective l, .cond c]

mutual

/-- The complement, item by item. -/
def negate : PlainCond → PlainCond
  | .simple lhs op rhs => .simple lhs op.negate rhs
  | .compound items => .compound (negateItems items)

/-- The complements of items. -/
def negateItems : List PlainItem → List PlainItem
  | [] => []
  | .cond c :: rest => .cond c.negate :: negateItems rest
  | .connective l :: rest => .connective l.negate :: negateItems rest

end

/-- The complement of a longer list adds the complement of the last condition. -/
theorem negateItems_push (items : List PlainItem) (l : Connective) (c : PlainCond) :
    negateItems (push items l c) = push (negateItems items) l.negate c.negate := by
  induction items with
  | nil => rfl
  | cons item items ih =>
    cases item with
    | cond d => exact congrArg (PlainItem.cond d.negate :: ·) ih
    | connective m => exact congrArg (PlainItem.connective m.negate :: ·) ih

end PlainCond

/-! ### The check -/

namespace PlainCond

/-- The check says what there is to be said of the items, and keeps them. -/
theorem verdict_ofItems (items : List PlainItem) :
    Verdict (items.map PlainItem.isCond) ((ofItems items).map fun _ => ()) ∧
      ∀ c, ofItems items = .ok c → c = .compound items := by
  rw [ofItems]
  by_cases heven : items.length % 2 = 0
  · rw [if_pos heven]
    exact ⟨verdict_even heven, nofun⟩
  rw [if_neg heven]
  have hodd : (items.map PlainItem.isCond).length % 2 = 1 := by
    rw [List.length_map]
    omega
  cases hfind : items.zipIdx.find? fun (item, i) => item.isCond != (i % 2 == 0) with
  | none =>
    refine ⟨.accepted ⟨hodd, fun i hi => ?_⟩, fun c h => (Except.ok.inj h).symm⟩
    rw [List.length_map] at hi
    have hmem : (items[i], i) ∈ items.zipIdx :=
      List.mk_mem_zipIdx_iff_getElem?.2 (List.getElem?_eq_getElem hi)
    have hplaced := List.find?_eq_none.1 hfind _ hmem
    rw [List.getElem?_map, List.getElem?_eq_getElem hi]
    simpa using hplaced
  | some found =>
    obtain ⟨hbad, k, hk, hget, hfirst⟩ := List.find?_eq_some_iff_getElem.1 hfind
    rw [List.getElem_zipIdx, Nat.zero_add] at hget
    subst hget
    rw [List.length_zipIdx] at hk
    refine ⟨.misplaced hodd ⟨by rwa [List.length_map], ?_, fun j hj => ?_⟩, nofun⟩
    · rw [List.getElem?_map, List.getElem?_eq_getElem hk]
      simpa using hbad
    · have hplaced := hfirst j hj
      rw [List.getElem_zipIdx, Nat.zero_add] at hplaced
      rw [List.getElem?_map, List.getElem?_eq_getElem (hj.trans hk)]
      simpa using hplaced

/-- **The check passes** items that alternate, and keeps them as they are. -/
theorem ofItems_eq_ok_iff {items : List PlainItem} {c : PlainCond} :
    ofItems items = .ok c ↔ Alternating (items.map PlainItem.isCond) ∧ c = .compound items := by
  obtain ⟨hverdict, hkeeps⟩ := verdict_ofItems items
  constructor
  · intro h
    rw [h] at hverdict
    exact ⟨verdict_ok_iff.1 hverdict, hkeeps c h⟩
  · rintro ⟨h, rfl⟩
    obtain ⟨c, hc, -⟩ := ok_of_map (hverdict.unique (.accepted h))
    rw [hc, hkeeps c hc]

end PlainCond

/-! ### The conditions of the library -/

mutual

/-- The condition with its compounds as lists of items. -/
def Cond.plain : Cond → PlainCond
  | .simple lhs op rhs => .simple lhs op rhs
  | .compound chain => .compound chain.plain

/-- The items of a chain, all the way down. -/
def Chain.plain : Chain → List PlainItem
  | .single c => [.cond c.plain]
  | .join chain l c => PlainCond.push chain.plain l c.plain

end

/-- The item, all the way down. -/
def Cond.Item.plain : Cond.Item → PlainItem
  | cond c => .cond c.plain
  | connective l => .connective l

theorem Cond.Item.isCond_plain (item : Cond.Item) : item.plain.isCond = item.isCond := by
  cases item <;> rfl

/-- The plain items are the items of the chain, each made plain. -/
theorem Chain.map_plain_items (chain : Chain) : chain.items.map Cond.Item.plain = chain.plain := by
  cases chain with
  | single c => rfl
  | join front l c =>
    rw [items, List.map_append, front.map_plain_items]
    rfl

/-- The kinds of the items do not depend on what is inside them. -/
theorem map_isCond_plain (items : List Cond.Item) :
    (items.map Cond.Item.plain).map PlainItem.isCond = items.map Cond.Item.isCond := by
  rw [List.map_map]
  exact List.map_congr_left fun item _ => item.isCond_plain

/-- Made plain, the items of a chain alternate. -/
theorem Chain.alternating_plain (chain : Chain) :
    Alternating (chain.plain.map PlainItem.isCond) := by
  rw [← chain.map_plain_items, map_isCond_plain]
  exact chain.alternating_items

mutual

/-- The complement is the same on both sides. -/
theorem Cond.plain_negate (c : Cond) : c.negate.plain = c.plain.negate := by
  match c with
  | .simple lhs op rhs => rfl
  | .compound chain => exact congrArg PlainCond.compound chain.plain_negate

theorem Chain.plain_negate (chain : Chain) :
    chain.negate.plain = PlainCond.negateItems chain.plain := by
  match chain with
  | .single c => exact congrArg (fun d => [PlainItem.cond d]) c.plain_negate
  | .join front l c =>
    rw [Chain.negate, Chain.plain, Chain.plain, front.plain_negate, c.plain_negate,
      PlainCond.negateItems_push]

end

namespace PlainCond

/-! ### The reader

What is read is followed by fewer tokens than there were. -/

section Shorter

variable {inner rest : List Token}

/-- A compound leaves less than it starts with. -/
theorem shorter_compound (first : Parse PlainCond (.lparen :: inner))
    (items : Parse (List PlainItem) first.rest) :
    items.rest.length < (.lparen :: .lparen :: inner : List Token).length :=
  Nat.lt_succ_of_lt (items.shorter.trans first.shorter)

/-- So does a comparison. -/
theorem shorter_simple {c : Cond} (h : FlowText.simple inner = .ok (c, rest)) :
    rest.length < (.lparen :: inner : List Token).length :=
  Nat.lt_succ_of_lt (length_lt_of_simple h)

/-- So does a closing parenthesis. -/
theorem shorter_rparen (rest : List Token) : rest.length < (.rparen :: rest : List Token).length :=
  Nat.lt_succ_self rest.length

/-- So does a connective with what is behind it. -/
theorem shorter_joined (t : Token) (next : Parse PlainCond rest)
    (longer : Parse (List PlainItem) next.rest) : longer.rest.length < (t :: rest).length :=
  Nat.lt_succ_of_lt (longer.shorter.trans next.shorter)

end Shorter

/-- Why no condition is read. -/
inductive Refusal where
  | grammar (e : GrammarError)
  /-- the items of a compound were refused -/
  | malformed (d : Defect)

mutual

/-- Reads a condition. The items of a compound are checked at its end. -/
def condition (ts : List Token) : Except Refusal (Parse PlainCond ts) :=
  match ts with
  | .lparen :: .lparen :: inner => do
    let first ← condition (.lparen :: inner)
    let items ← conditions [.cond first.value] first.rest
    let c ← (ofItems items.value).mapError .malformed
    return ⟨c, items.rest, shorter_compound first items⟩
  | .lparen :: inner =>
    match h : FlowText.simple inner with
    | .ok (c, rest) => .ok ⟨c.plain, rest, shorter_simple h⟩
    | .error e => .error (.grammar e)
  | ts => (expected .condOpen ts).mapError .grammar
termination_by ts.length
decreasing_by
  · simp
  · have := first.shorter
    simp only [List.length_cons] at *
    omega

/-- Reads the items behind those that were read, up to the closing parenthesis. -/
def conditions (items : List PlainItem) (ts : List Token) :
    Except Refusal (Parse (List PlainItem) ts) :=
  match ts with
  | [] => (expected .connective []).mapError .grammar
  | .rparen :: rest => .ok ⟨items, rest, shorter_rparen rest⟩
  | t :: rest =>
    match connectiveWord? t with
    | none => (expected .connective (t :: rest)).mapError .grammar
    | some word => do
      let op ← (Connective.ofWord word).mapError fun d => .grammar (.vocabulary d)
      let next ← condition rest
      let longer ← conditions (push items op next.value) next.rest
      return ⟨longer.value, longer.rest, shorter_joined t next longer⟩
termination_by ts.length
decreasing_by
  · simp
  · have := next.shorter
    simp only [List.length_cons] at *
    omega

end

/-- Reads a condition that is a whole text. -/
def whole (ts : List Token) : Except Refusal PlainCond := do
  let c ← condition ts
  (ended c.rest).mapError Refusal.grammar
  return c.value

/-- How it is reported that the text `input` is no condition. -/
def Refusal.report (line : Nat) (input : String) : Refusal → Error
  | grammar e => .parse line (.text input (.grammar e))
  | malformed d => .malformed d

/-- Reads the text of a condition, on a given line. -/
def read (line : Nat) (input : String) : Except Error PlainCond := do
  let ts ← (lex input.toList).mapError fun e => .parse line (.text input (.lexical e))
  (whole ts).mapError (Refusal.report line input)

end PlainCond

/-- Something read, in another form. -/
def Parse.map {α β : Type} {ts : List Token} (f : α → β) (s : Parse α ts) : Parse β ts :=
  ⟨f s.value, s.rest, s.shorter⟩

/-- What is known of the tokens that are left does not count. -/
theorem Parse.map_toPair_inj {η α : Type} {ts : List Token} {x y : Except η (Parse α ts)}
    (h : x.map toPair = y.map toPair) : x = y := by
  cases x with
  | error e =>
    cases y with
    | error e' => exact congrArg Except.error (Except.error.inj h)
    | ok t => cases h
  | ok s =>
    cases y with
    | error e' => cases h
    | ok t =>
      obtain ⟨value, rest, _⟩ := s
      obtain ⟨value', rest', _⟩ := t
      obtain ⟨rfl, rfl⟩ := Prod.mk.inj (Except.ok.inj h)
      rfl

namespace PlainCond

/-- What the library reads, with its compounds as lists of items. -/
def plainly {α β : Type} {ts : List Token} (f : α → β) (r : Except GrammarError (Parse α ts)) :
    Except Refusal (Parse β ts) :=
  (r.map (Parse.map f)).mapError .grammar

/-- Making something plain leaves the tokens that are left. -/
theorem map_toPair_plainly {α β : Type} {ts : List Token} (f : α → β)
    (r : Except GrammarError (Parse α ts)) : (plainly f r).map Parse.toPair =
      ((r.map Parse.toPair).map fun p => (f p.1, p.2)).mapError Refusal.grammar := by
  cases r <;> rfl

/-- One comparison is no compound. -/
theorem condition_simple {inner : List Token} (h : ∀ us, inner ≠ lparen :: us) :
    (condition (lparen :: inner)).map Parse.toPair =
      ((FlowText.simple inner).map fun p => (p.1.plain, p.2)).mapError Refusal.grammar := by
  have hview {r : Except GrammarError (Cond × List Token)} (hs : FlowText.simple inner = r) :
      ((FlowText.simple inner).map fun p => (p.1.plain, p.2)).mapError Refusal.grammar =
        (r.map fun p => (p.1.plain, p.2)).mapError Refusal.grammar := by
    rw [hs]
  rw [condition]
  · split
    · next hs => exact (hview hs).symm
    · next hs => exact (hview hs).symm
  · exact fun us hus => h us hus

/-- The items of a chain are never refused. -/
theorem ofItems_plain (chain : Chain) : ofItems chain.plain = .ok (.compound chain.plain) :=
  ofItems_eq_ok_iff.2 ⟨chain.alternating_plain, rfl⟩

mutual

/-- **The reader never meets items that do not alternate**: it reads what the library reads. -/
theorem condition_eq (ts : List Token) :
    condition ts = plainly Cond.plain (FlowText.condition ts) := by
  match ts with
  | [] =>
    rw [condition, FlowText.condition]
    · rfl
    all_goals nofun
  | t :: inner =>
    by_cases ht : t = lparen
    · subst ht
      by_cases hp : ∃ us, inner = lparen :: us
      · obtain ⟨us, rfl⟩ := hp
        rw [condition, FlowText.condition, condition_eq (.lparen :: us)]
        cases FlowText.condition (.lparen :: us) with
        | error e => rfl
        | ok first =>
          have hitems := conditions_eq (.single first.value) first.rest
          change conditions (Chain.plain (.single first.value)) first.rest >>= _ =
            plainly _ (FlowText.conditions (.single first.value) first.rest >>= _)
          rw [hitems]
          cases FlowText.conditions (.single first.value) first.rest with
          | error e => rfl
          | ok chain =>
            change (ofItems chain.value.plain).mapError _ >>= _ = _
            rw [ofItems_plain]
            rfl
      -- one comparison, which both read alike
      have hinner : ∀ us, inner ≠ lparen :: us := fun us hus => hp ⟨us, hus⟩
      have hlibrary := readCond_simple hinner
      rw [readCond] at hlibrary
      refine Parse.map_toPair_inj ?_
      rw [condition_simple hinner, map_toPair_plainly, hlibrary]
    rw [condition, FlowText.condition]
    · rfl
    all_goals
      rintro us ⟨⟩
      exact ht rfl
termination_by ts.length
decreasing_by
  · subst_vars
    simp
  · subst_vars
    have := first.shorter
    simp only [List.length_cons] at *
    omega

/-- Behind the first condition the items are read like the chain. -/
theorem conditions_eq (chain : Chain) (ts : List Token) :
    conditions chain.plain ts = plainly Chain.plain (FlowText.conditions chain ts) := by
  match ts with
  | [] =>
    rw [conditions, FlowText.conditions]
    rfl
  | t :: rest =>
    by_cases ht : t = rparen
    · subst ht
      rw [conditions, FlowText.conditions]
      rfl
    rw [conditions, FlowText.conditions]
    · cases connectiveWord? t with
      | none => rfl
      | some word =>
        dsimp only
        cases Connective.ofWord word with
        | error d => rfl
        | ok l =>
          change condition rest >>= _ = plainly _ (FlowText.condition rest >>= _)
          rw [condition_eq rest]
          cases FlowText.condition rest with
          | error e => rfl
          | ok next =>
            have hlonger := conditions_eq (.join chain l next.value) next.rest
            change conditions (Chain.plain (.join chain l next.value)) next.rest >>= _ =
              plainly _ (FlowText.conditions (.join chain l next.value) next.rest >>= _)
            rw [hlonger]
            cases FlowText.conditions (.join chain l next.value) next.rest with
            | error e => rfl
            | ok longer => rfl
    all_goals exact ht
termination_by ts.length
decreasing_by
  · simp
  · have := next.shorter
    simp only [List.length_cons] at *
    omega

end

/-- A whole text is read as the library reads it, and then made plain. -/
theorem whole_eq (ts : List Token) :
    whole ts =
      ((do let c ← FlowText.condition ts; ended c.rest; return c.value).map
        Cond.plain).mapError Refusal.grammar := by
  rw [whole, condition_eq]
  cases FlowText.condition ts with
  | error e => rfl
  | ok c =>
    change (ended c.rest).mapError _ >>= _ = (Except.map _ (ended c.rest >>= _)).mapError _
    cases ended c.rest <;> rfl

/-- **The reader reads what the library reads**, and reports the same. -/
theorem read_eq (line : Nat) (input : String) :
    read line input = (onLine line Cond.ofText input).map Cond.plain := by
  rw [read, onLine, Cond.ofText, readText]
  cases lex input.toList with
  | error e => rfl
  | ok ts =>
    change (whole ts).mapError _ = _
    rw [whole_eq]
    change _ = Except.map _ ((Except.mapError TextError.grammar
      (do let c ← FlowText.condition ts; ended c.rest; return c.value)).mapError _)
    cases (do let c ← FlowText.condition ts; ended c.rest; return c.value :
      Except GrammarError Cond) <;> rfl

/-! ### What can be made -/

/-- **Made.** The conditions that any number of steps makes: from comparisons, by what there is to
make compounds, and by taking them apart again. -/
inductive Made : PlainCond → Prop where
  | simple (lhs : Expr) (op : Comparison) (rhs : Expr) : Made (.simple lhs op rhs)
  | ofItems {items : List PlainItem} {c : PlainCond} (hitems : ∀ d, .cond d ∈ items → Made d)
    (h : ofItems items = .ok c) : Made c
  | pair {c d : PlainCond} (l : Connective) (hc : Made c) (hd : Made d) : Made (pair c l d)
  | push {items : List PlainItem} {c : PlainCond} (l : Connective) (h : Made (.compound items))
    (hc : Made c) : Made (.compound (push items l c))
  | negate {c : PlainCond} (h : Made c) : Made c.negate
  | read {line : Nat} {input : String} {c : PlainCond} (h : read line input = .ok c) : Made c
  | item {items : List PlainItem} {c : PlainCond} (h : Made (.compound items))
    (hc : .cond c ∈ items) : Made c

/-- **Within.** The condition is the other one, or stands in it at any depth. -/
inductive Within (c : PlainCond) : PlainCond → Prop where
  | refl : Within c c
  | item {items : List PlainItem} {d : PlainCond} (hd : .cond d ∈ items) (h : Within c d) :
    Within c (.compound items)

/-- A condition among the items of a chain is a condition made plain. -/
theorem exists_of_mem_plain {chain : Chain} {c : PlainCond} (h : .cond c ∈ chain.plain) :
    ∃ d : Cond, d.plain = c := by
  rw [← chain.map_plain_items] at h
  obtain ⟨item, -, hitem⟩ := List.mem_map.1 h
  cases item with
  | cond d => exact ⟨d, PlainItem.cond.inj hitem⟩
  | connective l => cases hitem

/-- Only a compound is plain with items. -/
theorem exists_of_plain_eq_compound {d : Cond} {items : List PlainItem}
    (h : d.plain = .compound items) : ∃ chain, d = .compound chain ∧ chain.plain = items := by
  cases d with
  | simple lhs op rhs => cases h
  | compound chain => exact ⟨chain, rfl, PlainCond.compound.inj h⟩

/-- Items that are conditions of the library are items of the library. -/
theorem exists_items {items : List PlainItem}
    (h : ∀ c, .cond c ∈ items → ∃ d : Cond, d.plain = c) :
    ∃ items' : List Cond.Item, items'.map Cond.Item.plain = items := by
  induction items with
  | nil => exact ⟨[], rfl⟩
  | cons item items ih =>
    obtain ⟨items', rfl⟩ := ih fun c hc => h c (List.mem_cons_of_mem _ hc)
    cases item with
    | cond c =>
      obtain ⟨d, rfl⟩ := h c List.mem_cons_self
      exact ⟨.cond d :: items', rfl⟩
    | connective l => exact ⟨.connective l :: items', rfl⟩

/-- The library says of items what the check says of them. -/
theorem ofItems_map_plain (items : List Cond.Item) :
    ofItems (items.map Cond.Item.plain) =
      (Chain.ofItems items).map fun chain => (Cond.compound chain).plain := by
  obtain ⟨hverdict, hkeeps⟩ := verdict_ofItems (items.map Cond.Item.plain)
  obtain ⟨hverdict', hkeeps'⟩ := Chain.verdict_ofItems items
  rw [map_isCond_plain] at hverdict
  have hsame := hverdict.unique hverdict'
  cases hc : ofItems (items.map Cond.Item.plain) with
  | error d =>
    cases hchain : Chain.ofItems items with
    | error d' =>
      rw [hc, hchain] at hsame
      obtain rfl : d = d' := Except.error.inj hsame
      rfl
    | ok chain =>
      rw [hc, hchain] at hsame
      cases hsame
  | ok c =>
    cases hchain : Chain.ofItems items with
    | error d' =>
      rw [hc, hchain] at hsame
      cases hsame
    | ok chain =>
      have hitems := hkeeps' chain hchain
      rw [hkeeps c hc, ← hitems, chain.map_plain_items]
      rfl

/-- **Every step stays in the library.** -/
theorem exists_of_made {c : PlainCond} (h : Made c) : ∃ d : Cond, d.plain = c := by
  induction h with
  | simple lhs op rhs => exact ⟨.simple lhs op rhs, rfl⟩
  | ofItems hitems h ih =>
    obtain ⟨items', rfl⟩ := exists_items ih
    rw [ofItems_map_plain] at h
    obtain ⟨chain, -, rfl⟩ := ok_of_map h
    exact ⟨.compound chain, rfl⟩
  | pair l hc hd ihc ihd =>
    obtain ⟨c, rfl⟩ := ihc
    obtain ⟨d, rfl⟩ := ihd
    exact ⟨.compound (.pair c l d), rfl⟩
  | push l h hc ih ihc =>
    obtain ⟨d, hd⟩ := ih
    obtain ⟨chain, rfl, rfl⟩ := exists_of_plain_eq_compound hd
    obtain ⟨c, rfl⟩ := ihc
    exact ⟨.compound (.join chain l c), rfl⟩
  | negate h ih =>
    obtain ⟨c, rfl⟩ := ih
    exact ⟨c.negate, c.plain_negate⟩
  | read h =>
    rw [read_eq] at h
    obtain ⟨c, -, rfl⟩ := ok_of_map h
    exact ⟨c, rfl⟩
  | item h hc ih =>
    obtain ⟨d, hd⟩ := ih
    obtain ⟨chain, rfl, rfl⟩ := exists_of_plain_eq_compound hd
    exact exists_of_mem_plain hc

mutual

/-- Every condition of the library can be made. -/
theorem made_plain (d : Cond) : Made d.plain := by
  match d with
  | .simple lhs op rhs => exact .simple lhs op rhs
  | .compound chain => exact .ofItems (made_of_mem_plain chain) (ofItems_plain chain)

/-- The conditions of a chain can be made. -/
theorem made_of_mem_plain (chain : Chain) : ∀ c, .cond c ∈ chain.plain → Made c := by
  intro c hc
  match chain with
  | .single d =>
    obtain rfl := PlainItem.cond.inj (List.mem_singleton.1 hc)
    exact made_plain d
  | .join front l d =>
    rw [Chain.plain, push, List.mem_append] at hc
    rcases hc with hc | hc
    · exact made_of_mem_plain front c hc
    · have hd : c = d.plain := by simpa using hc
      exact hd ▸ made_plain d

end

/-- What stands in a condition that can be made can be made. -/
theorem Made.within {c d : PlainCond} (h : Made d) (hw : Within c d) : Made c := by
  induction hw with
  | refl => exact h
  | item hd _ ih => exact ih (h.item hd)

/-- **The items of a compound that can be made alternate**, so it is made of them again. -/
theorem Made.alternating {items : List PlainItem} (h : Made (.compound items)) :
    Alternating (items.map PlainItem.isCond) ∧ PlainCond.ofItems items = .ok (.compound items) := by
  obtain ⟨d, hd⟩ := exists_of_made h
  obtain ⟨chain, rfl, rfl⟩ := exists_of_plain_eq_compound hd
  exact ⟨chain.alternating_plain, ofItems_plain chain⟩

end PlainCond

mutual

/-- A condition is known by its items. -/
theorem Cond.plain_inj {c d : Cond} (h : c.plain = d.plain) : c = d := by
  match c, d with
  | .simple .., .simple .. =>
    cases h
    rfl
  | .compound chain, .compound chain' =>
    rw [Chain.plain_inj (PlainCond.compound.inj h)]
  | .simple .., .compound _ => cases h
  | .compound _, .simple .. => cases h

/-- Different chains have different items. -/
theorem Chain.plain_inj {chain chain' : Chain} (h : chain.plain = chain'.plain) :
    chain = chain' := by
  match chain, chain' with
  | .single c, .single d =>
    rw [Cond.plain_inj (PlainItem.cond.inj (List.cons.inj h).1)]
  | .join front l c, .join front' l' c' =>
    obtain ⟨hfront, hlast⟩ := List.append_inj' h rfl
    obtain ⟨hl, hc⟩ := List.cons.inj hlast
    rw [Chain.plain_inj hfront, PlainItem.connective.inj hl,
      Cond.plain_inj (PlainItem.cond.inj (List.cons.inj hc).1)]
  | .single c, .join front l d =>
    have hlength := congrArg List.length h
    simp [Chain.plain, PlainCond.push] at hlength
  | .join front l d, .single c =>
    have hlength := congrArg List.length h
    simp [Chain.plain, PlainCond.push] at hlength

end

/-- **The library acts on items**: what it does to conditions is what is done to their items. -/
structure ActsOnItems (plain : Cond → PlainCond) : Prop where
  injective {c d : Cond} (h : plain c = plain d) : c = d
  compound (chain : Chain) : plain (.compound chain) = .compound (chain.items.map Cond.Item.plain)
  ofItems (items : List Cond.Item) : PlainCond.ofItems (items.map Cond.Item.plain) =
    (Chain.ofItems items).map fun chain => plain (.compound chain)
  pair (c : Cond) (l : Connective) (d : Cond) :
    plain (.compound (.pair c l d)) = .pair (plain c) l (plain d)
  append (chain : Chain) (l : Connective) (c : Cond) : plain ((Cond.compound chain).append l c) =
    .compound (PlainCond.push (chain.items.map Cond.Item.plain) l (plain c))
  negate (c : Cond) : plain c.negate = (plain c).negate
  read (line : Nat) (input : String) :
    PlainCond.read line input = (onLine line Cond.ofText input).map plain

/-- Making conditions plain goes well with all that the library does to them. -/
theorem actsOnItems_plain : ActsOnItems Cond.plain where
  injective := Cond.plain_inj
  compound chain := by rw [Cond.plain, chain.map_plain_items]
  ofItems := PlainCond.ofItems_map_plain
  pair _ _ _ := rfl
  append chain l c := by rw [chain.map_plain_items]; rfl
  negate := Cond.plain_negate
  read := PlainCond.read_eq

open PlainCond in
/-- **Compounds alternate.** Whatever is made by checking items, pairing, adding, negating and
reading, every compound in it, at any depth, has an odd number of items, conditions at the even
positions and connectives at the odd ones, and it is made of these items again. The check accepts
just the items that are so, keeps them, and otherwise tells what is wrong with them. The reader
never has to. What can be made in this way are the conditions of the library, and it acts on their
items. -/
theorem compounds_alternate :
    (∀ c, Made c → ∀ items, Within (.compound items) c →
      Alternating (items.map PlainItem.isCond) ∧ PlainCond.ofItems items = .ok (.compound items)) ∧
    (∀ items c, PlainCond.ofItems items = .ok c ↔
      Alternating (items.map PlainItem.isCond) ∧ c = .compound items) ∧
    (∀ items d, PlainCond.ofItems items = .error d ↔
      Verdict (items.map PlainItem.isCond) (.error d)) ∧
    (∀ line input d, PlainCond.read line input ≠ .error (.malformed d)) ∧
    (∀ items chain, Chain.ofItems items = .ok chain ↔
      Alternating (items.map Cond.Item.isCond) ∧ chain.items = items) ∧
    (∀ items d, Chain.ofItems items = .error d ↔ Verdict (items.map Cond.Item.isCond) (.error d)) ∧
    (∀ chain, Chain.ofItems (Cond.compound chain).flatten = .ok chain) ∧
    (∀ c, Made c ↔ ∃ d : Cond, d.plain = c) ∧ ActsOnItems Cond.plain := by
  refine ⟨fun c hc items hwithin => (hc.within hwithin).alternating, fun _ _ => ofItems_eq_ok_iff,
    fun items _ => (verdict_ofItems items).1.eq_error_iff, fun line input d h => ?_,
    fun _ _ => Chain.ofItems_eq_ok_iff, fun items _ => (Chain.verdict_ofItems items).1.eq_error_iff,
    Chain.ofItems_items, fun c => ⟨exists_of_made, ?_⟩, actsOnItems_plain⟩
  · rw [read_eq, onLine] at h
    cases hread : Cond.ofText input with
    | error e =>
      rw [hread] at h
      cases h
    | ok c =>
      rw [hread] at h
      cases h
  · rintro ⟨d, rfl⟩
    exact made_plain d

open PlainCond in
/-- A pair is negated and put behind a comparison, and stays a compound of three items. -/
theorem negated_pair_alternates :
    Alternating [true, false, true] ∧
      PlainCond.ofItems [.cond (.simple (.addr "a") .ne (.addr "b")), .connective .or,
          .cond (.simple (.addr "c") .ge (.addr "d"))] =
        .ok (.compound [.cond (.simple (.addr "a") .ne (.addr "b")), .connective .or,
          .cond (.simple (.addr "c") .ge (.addr "d"))]) := by
  have hpair : Made (pair (.simple (.addr "a") .eq (.addr "b")) .and
      (.simple (.addr "c") .lt (.addr "d"))) := .pair .and (.simple ..) (.simple ..)
  have houter : Made (pair (.simple (.reg "x") .eq (.reg "y")) .or
      (pair (.simple (.addr "a") .eq (.addr "b")) .and
        (.simple (.addr "c") .lt (.addr "d"))).negate) :=
    .pair .or (.simple ..) hpair.negate
  exact compounds_alternate.1 _ houter _
    (.item (List.mem_cons_of_mem _ (List.mem_cons_of_mem _ (List.mem_singleton_self _))) .refl)

end FlowText
