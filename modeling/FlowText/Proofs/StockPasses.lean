import FlowText.Proofs.NodeChanges
import FlowText.Proofs.Scripts

/-!
# What the stock passes do

Each stock pass acts as a function of the graph (`Stock.actsAs`), and whatever it changes leaves
less to do (`Stock.descends`), so no change is undone. A script that asks for stock passes is
resolved to them, and its pipeline acts as they do in turn, round by round (`Script.exists_runs`).

So a run of stock passes tells truthfully whether the graph is another one than before, and it takes
out instructions that are dead or jumps and sets numbers, and does nothing else
(`stock_runs_are_honest`).
-/

namespace FlowText

variable {σ : Type}

/-! ### Blocks -/

namespace Block

/-- The block without the jump at its end. -/
def dropJump (b : Block) : Block := b.dropJump?.getD b

/-- The block without what is marked as dead. -/
def dropDead (b : Block) : Block := b.retain fun i => !i.isDead

/-- A jump at the end is taken off, and nothing else. -/
theorem exists_of_dropJump? {b c : Block} (h : b.dropJump? = some c) :
    c.addr = b.addr ∧ ∃ i, i.op = .goto ∧ b.insts = c.insts ++ [i] := by
  rw [dropJump?] at h
  cases hl : b.insts.getLast? with
  | none =>
    rw [hl] at h
    cases h
  | some i =>
    rw [hl] at h
    dsimp only at h
    split at h
    · next hi =>
      cases h
      exact ⟨rfl, i, hi, (List.dropLast_append_getLast? i hl).symm⟩
    · cases h

/-- A block without a jump at its end stays as it is. -/
theorem dropJump_of_none {b : Block} (h : b.dropJump? = none) : b.dropJump = b := by
  rw [dropJump, h, Option.getD_none]

/-- A jump at the end of a block is taken away. -/
theorem dropJump_of_some {b c : Block} (h : b.dropJump? = some c) : b.dropJump = c := by
  rw [dropJump, h, Option.getD_some]

/-- The block then has one instruction less. -/
theorem length_of_dropJump? {b c : Block} (h : b.dropJump? = some c) :
    b.insts.length = c.insts.length + 1 := by
  obtain ⟨-, i, -, hinsts⟩ := exists_of_dropJump? h
  rw [hinsts, List.length_append, List.length_singleton]

/-- **Trailing jumps.** A change takes an instruction away, and none is added. -/
theorem descends_dropJump : Descends (fun b => b.insts.length) dropJump := by
  intro b h
  cases hd : b.dropJump? with
  | none => exact absurd (dropJump_of_none hd) h
  | some c =>
    have hlt : c.insts.length < b.insts.length := by
      rw [length_of_dropJump? hd]
      exact Nat.lt_succ_self _
    rwa [dropJump_of_some hd]

/-- Nothing is dead in a block that keeps its length. -/
theorem dropDead_eq_self_iff {b : Block} :
    b.dropDead = b ↔ b.dropDead.insts.length = b.insts.length := by
  refine ⟨fun h => congrArg (fun b : Block => b.insts.length) h, fun h => ?_⟩
  have hall := List.filter_eq_self.2 (List.length_filter_eq_length_iff.1 h)
  rw [dropDead, retain, hall]

/-- **Dead instructions.** A change takes instructions away, and none is added. -/
theorem descends_dropDead : Descends (fun b => b.insts.length) dropDead := fun _ h =>
  Nat.lt_of_le_of_ne (List.length_filter_le _ _) fun heq => h (dropDead_eq_self_iff.2 heq)

/-- The instruction is neither dead nor a jump. -/
def Stays (i : Inst) : Bool := !i.isDead && i.op != .goto

/-- **Trimmed.** The instructions of the one block are some of those of the other one, in their
order, and all of those are left that are neither dead nor jumps. -/
structure Trimmed (c b : Block) : Prop where
  addr : c.addr = b.addr
  sublist : c.insts.Sublist b.insts
  kept : c.insts.filter Stays = b.insts.filter Stays

/-- A block may be trimmed by nothing. -/
theorem Trimmed.refl (b : Block) : Trimmed b b := ⟨rfl, .refl _, rfl⟩

/-- What is trimmed twice is trimmed. -/
theorem Trimmed.trans {a b c : Block} (hcb : Trimmed c b) (hba : Trimmed b a) : Trimmed c a :=
  ⟨hcb.addr.trans hba.addr, hcb.sublist.trans hba.sublist, hcb.kept.trans hba.kept⟩

/-- Taking away the jump at the end is trimming. -/
theorem trimmed_dropJump (b : Block) : b.dropJump.Trimmed b := by
  cases hd : b.dropJump? with
  | none =>
    rw [dropJump_of_none hd]
    exact .refl b
  | some c =>
    obtain ⟨haddr, i, hi, hinsts⟩ := exists_of_dropJump? hd
    rw [dropJump_of_some hd]
    refine ⟨haddr, hinsts ▸ List.sublist_append_left _ _, ?_⟩
    rw [hinsts, List.filter_append]
    simp [Stays, hi]

/-- Taking away dead instructions is trimming, as none of them is live. -/
theorem trimmed_dropDead (b : Block) : b.dropDead.Trimmed b := by
  refine ⟨rfl, List.filter_sublist, ?_⟩
  rw [dropDead, retain, List.filter_filter]
  refine List.filter_congr fun i _ => ?_
  cases h : i.isDead <;> simp [Stays, h]

end Block

/-! ### Graphs -/

namespace Cfg

/-- **Trimmed.** The graphs have the same nodes and edges and the same entry, and in each block at
most instructions are missing that are dead or jumps. Numbers are left open. -/
structure Trimmed (h g : Cfg) : Prop where
  addrs : h.nodes.map Node.addr = g.nodes.map Node.addr
  nodeId : ∀ addr, h.nodeId? addr = g.nodeId? addr
  edges : h.graph.edges = g.graph.edges
  succ : ∀ addr, h.succ addr = g.succ addr
  pred : ∀ addr, h.pred addr = g.pred addr
  edgeCond : ∀ s t, h.edgeCond? s t = g.edgeCond? s t
  entry : h.entry? = g.entry?
  /-- the same addresses have a block -/
  block : ∀ addr, Option.Rel Block.Trimmed (h.block? addr) (g.block? addr)

/-- A graph is trimmed if its shape stays and every block is trimmed. -/
theorem Trimmed.of_sameShape {g h : Cfg} (hs : SameShape g h)
    (hb : ∀ addr, Option.Rel Block.Trimmed (h.block? addr) (g.block? addr)) : Trimmed h g where
  addrs := hs.addrs
  nodeId := hs.nodeId?
  edges := hs.edges
  succ := hs.succ
  pred := hs.pred
  edgeCond := hs.edgeCond?
  entry := hs.entry?
  block := hb

/-- A block that may be missing is trimmed by nothing, and does not come from nowhere. -/
theorem trimmed_block_refl (b : Option Block) : Option.Rel Block.Trimmed b b := by
  cases b with
  | none => exact .none
  | some b => exact .some (.refl b)

/-- Blocks that may be missing are missing all along, or are trimmed twice. -/
theorem trimmed_block_trans {a b c : Option Block} (hcb : Option.Rel Block.Trimmed c b)
    (hba : Option.Rel Block.Trimmed b a) : Option.Rel Block.Trimmed c a := by
  cases hcb with
  | none => exact hba
  | some hcb =>
    cases hba with
    | some hba => exact .some (hcb.trans hba)

/-- A graph may be trimmed by nothing. -/
theorem Trimmed.refl (g : Cfg) : Trimmed g g :=
  .of_sameShape (.refl g) fun _ => trimmed_block_refl _

/-- A graph that is trimmed twice is trimmed. -/
theorem Trimmed.trans {g h k : Cfg} (hkh : Trimmed k h) (hhg : Trimmed h g) : Trimmed k g where
  addrs := hkh.addrs.trans hhg.addrs
  nodeId addr := (hkh.nodeId addr).trans (hhg.nodeId addr)
  edges := hkh.edges.trans hhg.edges
  succ addr := (hkh.succ addr).trans (hhg.succ addr)
  pred addr := (hkh.pred addr).trans (hhg.pred addr)
  edgeCond s t := (hkh.edgeCond s t).trans (hhg.edgeCond s t)
  entry := hkh.entry.trans hhg.entry
  block addr := trimmed_block_trans (hkh.block addr) (hhg.block addr)

/-- A change of all nodes is seen at every address. -/
theorem node?_mapNodes (g : Cfg) (f : Node → Node) (addr : String) :
    (g.mapNodes f).node? addr = (g.node? addr).map fun n => { f n with addr := n.addr } := by
  rw [node?_eq, node?_eq, nodes_mapNodes, List.find?_map]
  rfl

/-- A change of all blocks is seen at every address. -/
theorem block?_mapBlocks (g : Cfg) (f : Block → Block) (addr : String) :
    (g.mapBlocks f).block? addr = (g.block? addr).map f := by
  rw [block?, mapBlocks, node?_mapNodes, block?]
  cases g.node? addr <;> rfl

/-- It leaves the numbers. -/
theorem number?_mapBlocks (g : Cfg) (f : Block → Block) (addr : String) :
    (g.mapBlocks f).number? addr = g.number? addr := by
  rw [number?, mapBlocks, node?_mapNodes, number?]
  cases g.node? addr <;> rfl

/-- Numbering leaves the blocks. -/
theorem block?_numberPostorder (g : Cfg) (addr : String) :
    g.numberPostorder.2.block? addr = g.block? addr := by
  rw [numberPostorder_eq_mapNodes, block?, node?_mapNodes, block?]
  cases g.node? addr <;> rfl

/-- To trim every block is to trim the graph. -/
theorem trimmed_mapBlocks {f : Block → Block} (hf : ∀ b, (f b).Trimmed b) (g : Cfg) :
    (g.mapBlocks f).Trimmed g := by
  refine .of_sameShape (sameShape_mapBlocks g f) fun addr => ?_
  rw [block?_mapBlocks]
  cases g.block? addr with
  | none => exact .none
  | some b => exact .some (hf b)

/-- Numbering trims nothing. -/
theorem trimmed_numberPostorder (g : Cfg) : g.numberPostorder.2.Trimmed g := by
  refine .of_sameShape (sameShape_numberPostorder g) fun addr => ?_
  rw [block?_numberPostorder]
  exact trimmed_block_refl _

/-! ### What is left to do -/

/-- **To do.** The instructions there are, and numbering if the numbers are not those of the
shape. -/
def toDo (g : Cfg) : Nat := g.instCount + if g.numberPostorder.2 = g then 0 else 1

/-- There is no more to do than there are instructions, and to number the nodes. -/
theorem toDo_le (g : Cfg) : g.toDo ≤ g.instCount + 1 := by
  rw [toDo]
  split <;> omega

/-- Numbering takes no instruction away. -/
theorem instCount_numberPostorder (g : Cfg) : g.numberPostorder.2.instCount = g.instCount := by
  have hblocks : g.numberPostorder.2.blocks = g.blocks := by
    change g.numberPostorder.2.nodes.filterMap Node.block = g.nodes.filterMap Node.block
    rw [numberPostorder_eq_mapNodes, nodes_mapNodes, List.filterMap_map]
    rfl
  rw [instCount, hblocks, instCount]

/-- **Numbering.** Once the numbers are right there is nothing left to do about them. -/
theorem descends_numberPostorder : Descends toDo fun g => g.numberPostorder.2 := by
  intro g h
  change g.numberPostorder.2 ≠ g at h
  change g.numberPostorder.2.toDo < g.toDo
  rw [toDo, toDo, if_pos (numberPostorder_numberPostorder g), if_neg h, instCount_numberPostorder]
  omega

/-- A change of blocks leaves no numbering to do where there was none. -/
theorem descends_toDo_mapBlocks {f : Block → Block} (hf : Descends (fun b => b.insts.length) f) :
    Descends toDo fun g => g.mapBlocks f := by
  intro g h
  have hlt := descends_mapBlocks hf g h
  change (g.mapBlocks f).instCount < g.instCount at hlt
  change (g.mapBlocks f).toDo < g.toDo
  rw [toDo, toDo]
  by_cases hg : g.numberPostorder.2 = g
  · have hsame : (g.mapBlocks f).numberPostorder.2 = g.mapBlocks f := by
      rw [numberPostorder_mapBlocks, hg]
    rw [if_pos hg, if_pos hsame]
    omega
  · rw [if_neg hg]
    split <;> omega

end Cfg

/-! ### Passes -/

/-- The stock passes. -/
inductive Stock where
  | numberPostorder
  | removeTrailingJumps
  | removeDead
  deriving DecidableEq, Inhabited

namespace Stock

/-- The pass of the catalog. -/
def pass : Stock → Pass σ
  | numberPostorder => .numberPostorder
  | removeTrailingJumps => .removeTrailingJumps
  | removeDead => .removeDead

/-- What the pass works on. -/
def kind : Stock → PassKind
  | numberPostorder => .graph
  | removeTrailingJumps | removeDead => .block

/-- The name by which scripts ask for the pass. -/
def name : Stock → String
  | numberPostorder => "number_postorder"
  | removeTrailingJumps => "remove_trailing_jumps"
  | removeDead => "remove_dead"

/-- What the pass makes of a graph. -/
def act : Stock → Cfg → Cfg
  | numberPostorder, g => g.numberPostorder.2
  | removeTrailingJumps, g => g.mapBlocks Block.dropJump
  | removeDead, g => g.mapBlocks Block.dropDead

/-- The stock passes have different names. -/
theorem name_inj {k k' : Stock} (h : k.name = k'.name) : k = k' := by
  cases k <;> cases k' <;> first | rfl | exact absurd h (by decide)

/-- **What a stock pass does** is a function of the graph: it does not fail, remembers nothing, and
tells whether something changed. -/
theorem actsAs (k : Stock) : (k.pass (σ := σ)).run.ActsAs k.act := by
  cases k with
  | numberPostorder =>
    intro b
    refine ⟨_, _, rfl, ?_⟩
    rw [bne_iff_ne, Ne, Ne, eq_comm]
    exact not_congr Cfg.numberPostorder_eq_self_iff.symm
  | removeTrailingJumps =>
    refine Edit.ActsAs.eachBlock (fun b => ?_) Block.descends_dropJump
    rw [Edit.on_bind_of_ok (Edit.on_subject b)]
    cases hd : b.subject.dropJump? with
    | none =>
      rw [Block.dropJump_of_none hd]
      exact ⟨false, b.log, rfl, by simp⟩
    | some c =>
      rw [Block.dropJump_of_some hd]
      refine ⟨true, b.log, rfl, iff_of_true rfl fun heq => ?_⟩
      have := Block.length_of_dropJump? hd
      rw [heq] at this
      omega
  | removeDead =>
    refine Edit.ActsAs.eachBlock (fun b => ?_) Block.descends_dropDead
    refine ⟨_, _, rfl, ?_⟩
    rw [bne_iff_ne, Ne, Ne, eq_comm]
    exact not_congr Block.dropDead_eq_self_iff.symm

/-- **Progress.** A stock pass that changes the graph leaves less to do. -/
theorem descends (k : Stock) : Descends Cfg.toDo k.act := by
  cases k with
  | numberPostorder => exact Cfg.descends_numberPostorder
  | removeTrailingJumps => exact Cfg.descends_toDo_mapBlocks Block.descends_dropJump
  | removeDead => exact Cfg.descends_toDo_mapBlocks Block.descends_dropDead

/-- **Honesty.** A stock pass trims the graph, and does nothing else to its blocks. -/
theorem trimmed (k : Stock) (g : Cfg) : (k.act g).Trimmed g := by
  cases k with
  | numberPostorder => exact Cfg.trimmed_numberPostorder g
  | removeTrailingJumps => exact Cfg.trimmed_mapBlocks Block.trimmed_dropJump g
  | removeDead => exact Cfg.trimmed_mapBlocks Block.trimmed_dropDead g

end Stock

/-! ### Scripts -/

/-- The script asks for the stock pass. -/
def Script.Asks (script : Script) (k : Stock) : Prop :=
  ∃ s ∈ script, s.kind = k.kind ∧ s.name = k.name

namespace Catalog

/-- The graph passes of the stock catalog. -/
theorem toList_stock_graph : ((stock (σ := σ)).shelf .graph).toList = [.numberPostorder] := rfl

/-- The block passes of the stock catalog, by name. -/
theorem toList_stock_block :
    ((stock (σ := σ)).shelf .block).toList = [.removeDead, .removeTrailingJumps] := by
  have h : (Pass.removeDead (σ := σ)).name < (Pass.removeTrailingJumps (σ := σ)).name := by
    change "remove_dead" < "remove_trailing_jumps"
    decide
  change Keyed.place Pass.name Pass.removeDead
    (Keyed.place Pass.name Pass.removeTrailingJumps []) = _
  rw [Keyed.place, Keyed.place, if_pos h]

/-- What the stock catalog has is a stock pass, under its kind and its name. -/
theorem exists_of_find?_stock {kind : PassKind} {name : String} {p : Pass σ}
    (h : stock.find? kind name = some p) :
    ∃ k : Stock, k.pass = p ∧ kind = k.kind ∧ name = k.name := by
  obtain ⟨rfl, rfl⟩ := kind_name_of_find? h
  have hmem : ∀ kind, p ∈ ((stock (σ := σ)).shelf kind).toList → ∃ k : Stock, k.pass = p := by
    intro kind hp
    cases kind with
    | graph =>
      rw [toList_stock_graph] at hp
      exact ⟨.numberPostorder, (List.mem_singleton.1 hp).symm⟩
    | block =>
      rw [toList_stock_block] at hp
      rcases List.mem_cons.1 hp with rfl | hp
      · exact ⟨.removeDead, rfl⟩
      · exact ⟨.removeTrailingJumps, (List.mem_singleton.1 hp).symm⟩
  obtain ⟨k, rfl⟩ := hmem _ (List.mem_of_find?_eq_some h)
  exact ⟨k, rfl, by cases k <;> rfl, by cases k <;> rfl⟩

end Catalog

/-- **Runs.** The script is resolved in the stock catalog, and from the graph `g` its pipeline runs
to the graph `h` without failure and reports whether something changed. -/
def Script.Runs (σ : Type) (script : Script) (config : Config) (g : Cfg)
    (changed : Bool) (h : Cfg) : Prop :=
  ∃ p : Pipeline σ, Pipeline.ofScript script .stock config = .ok p ∧
    ∀ b : Bench σ Cfg, b.subject = g → ∃ b', p.run.on b = (.ok changed, b') ∧ b'.subject = h

/-- A script that asks for stock passes only runs as these do in turn, once for every round. It
reports a change if there is one. -/
theorem Script.exists_runs {script : Script}
    (hs : ∀ s ∈ script, (Catalog.stock (σ := σ)).contains s.kind s.name = true) (config : Config) :
    ∃ ks : List Stock, (∀ k, k ∈ ks ↔ script.Asks k) ∧
      ∀ g, script.Runs σ config g (decide ((inTurn Stock.act ks)^[config.maxRounds] g ≠ g))
        ((inTurn Stock.act ks)^[config.maxRounds] g) := by
  have hfound : ∀ s ∈ script, ∃ k : Stock,
      (Catalog.stock (σ := σ)).find? s.kind s.name = some k.pass ∧ s.kind = k.kind ∧
      s.name = k.name := by
    intro s hmem
    obtain ⟨q, hq⟩ := Option.isSome_iff_exists.1 (hs s hmem)
    obtain ⟨k, rfl, hk⟩ := Catalog.exists_of_find?_stock hq
    exact ⟨k, hq, hk⟩
  choose! stockOf hstockOf using hfound
  refine ⟨script.map stockOf, fun k => ?_, fun g => ?_⟩
  · rw [List.mem_map]
    refine exists_congr fun s => and_congr_right fun hmem => ?_
    obtain ⟨-, hkind, hname⟩ := hstockOf s hmem
    constructor
    · rintro rfl
      exact ⟨hkind, hname⟩
    · rintro ⟨-, h⟩
      exact Stock.name_inj (hname.symm.trans h)
  · have hpasses :
        List.Forall₂ (fun (s : Step) pass => Catalog.stock.find? s.kind s.name = some pass)
        script ((script.map stockOf).map (Stock.pass (σ := σ))) := by
      rw [List.map_map, List.forall₂_map_right_iff, List.forall₂_same]
      exact fun s hmem => (hstockOf s hmem).1
    have hacts :=
      Pipeline.actsAs_run (p := ⟨(script.map stockOf).map (Stock.pass (σ := σ)), config⟩) rfl
      (fun k _ => k.actsAs) fun k _ => k.descends
    refine ⟨⟨(script.map stockOf).map Stock.pass, config⟩,
      Pipeline.ofScript_eq_ok_iff.2 ⟨rfl, hpasses⟩, ?_⟩
    rintro b rfl
    obtain ⟨changed, log, hrun, hchanged⟩ := hacts b
    have hdecide : changed =
        decide ((inTurn Stock.act (script.map stockOf))^[config.maxRounds] b.subject ≠
          b.subject) := by
      rw [Bool.eq_iff_iff, decide_eq_true_iff]
      exact hchanged
    exact ⟨_, hdecide ▸ hrun, rfl⟩

/-! ### What a run leaves -/

/-- What every function of a list keeps, any number of rounds of them keep. -/
theorem rounds_keep {α ι : Type} {R : α → α → Prop} (hrefl : ∀ a, R a a)
    (htrans : ∀ a b c, R c b → R b a → R c a) {fs : ι → α → α} {items : List ι}
    (h : ∀ i ∈ items, ∀ a, R (fs i a) a) (n : Nat) (a : α) : R ((inTurn fs items)^[n] a) a := by
  have hturn : ∀ a, R (inTurn fs items a) a := by
    induction items with
    | nil => exact hrefl
    | cons i items ih =>
      obtain ⟨hi, hitems⟩ := List.forall_mem_cons.1 h
      exact fun a => htrans _ _ _ (ih hitems (fs i a)) (hi a)
  induction n generalizing a with
  | zero => exact hrefl a
  | succ n ih => exact htrans _ _ _ (ih _) (hturn a)

/-- **Honest runs.** Whatever stock passes a script asks for, and however many rounds they may run:
the run ends without failure, and it reports no change exactly if the graph is the one that it was.
Its nodes and edges are those that it was given, with their identifiers, their order and their
conditions, and the entry is the same. In each block some of its instructions are left, in their
order, and those that are missing were dead or jumps. Numbers stay unless the script asks for
numbering. -/
theorem stock_runs_are_honest (script : Script)
    (hs : ∀ s ∈ script, (Catalog.stock (σ := σ)).contains s.kind s.name = true) (config : Config)
    (g : Cfg) :
    ∃ changed h, script.Runs σ config g changed h ∧
      (changed = false ↔ h = g) ∧
      h.Trimmed g ∧
      (¬ script.Asks .numberPostorder → ∀ addr, h.number? addr = g.number? addr) := by
  obtain ⟨ks, hks, hruns⟩ := Script.exists_runs hs config
  refine ⟨_, _, hruns g, ?_, ?_, fun hno addr => ?_⟩
  · rw [decide_eq_false_iff_not, not_not]
  · exact rounds_keep .refl (fun _ _ _ => .trans) (fun k _ => k.trimmed) _ _
  · have hstep : ∀ k ∈ ks, ∀ g : Cfg, (k.act g).number? addr = g.number? addr := by
      intro k hk g
      cases k with
      | numberPostorder => exact absurd ((hks _).1 hk) hno
      | removeTrailingJumps => exact g.number?_mapBlocks _ addr
      | removeDead => exact g.number?_mapBlocks _ addr
    exact rounds_keep (R := fun h g : Cfg => h.number? addr = g.number? addr) (fun _ => rfl)
      (fun _ _ _ => .trans) hstep _ _

/-- A script that tidies up blocks. -/
def tidyScript : Script := [⟨.block, "remove_trailing_jumps", 1⟩, ⟨.block, "remove_dead", 2⟩]

/-- Tidying up is honest, and leaves all numbers. -/
theorem tidying_is_honest :
    (∀ s ∈ tidyScript, (Catalog.stock (σ := Unit)).contains s.kind s.name = true) ∧
      ∀ g, ∃ changed h, tidyScript.Runs Unit { maxRounds := 3 } g changed h ∧
        (changed = false ↔ h = g) ∧ h.Trimmed g ∧ ∀ addr, h.number? addr = g.number? addr := by
  have hs : ∀ s ∈ tidyScript, (Catalog.stock (σ := Unit)).contains s.kind s.name = true := by
    decide +kernel
  refine ⟨hs, fun g => ?_⟩
  obtain ⟨changed, h, hruns, hchanged, htrimmed, hnumber⟩ :=
    stock_runs_are_honest tidyScript hs { maxRounds := 3 } g
  refine ⟨changed, h, hruns, hchanged, htrimmed, hnumber ?_⟩
  rintro ⟨s, hmem, hkind, -⟩
  have hblock : ∀ s ∈ tidyScript, s.kind = .block := by decide
  cases (hblock s hmem).symm.trans hkind

end FlowText
