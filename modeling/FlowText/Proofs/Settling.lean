import FlowText.Proofs.StockPasses
import Mathlib.Data.List.DropRight

/-!
# Where stock passes settle

What a set of stock passes leaves when none of them has anything left to do can be said without
running them: `Cfg.settled`. No pass of the set changes what will be left (`Cfg.settled_act`), and a
graph that all of them leave as it is is settled already (`Cfg.settled_of_stable`). A dead
instruction may hide a jump, and the other way round, so one round is not enough; but every round
that changes something leaves less to do, and with enough rounds any order of the passes, with any
repetitions, ends there (`stock_runs_settle`).
-/

namespace FlowText

/-! ### Blocks -/

namespace Block

/-- The block without all jumps at its end. -/
def dropJumps (b : Block) : Block := { b with insts := b.insts.rdropWhile fun i => i.op = .goto }

/-- Of two blocks at one address the one has a jump more at its end. -/
theorem dropJumps_eq_of_concat {b c : Block} {i : Inst} (haddr : c.addr = b.addr)
    (hi : i.op = .goto) (hinsts : b.insts = c.insts ++ [i]) : c.dropJumps = b.dropJumps := by
  have hdrop :=
    List.rdropWhile_concat_pos (fun i : Inst => i.op = .goto) c.insts i (decide_eq_true hi)
  rw [dropJumps, dropJumps, haddr, hinsts, hdrop]

theorem dropJumps_dropJump (b : Block) : b.dropJump.dropJumps = b.dropJumps := by
  cases hd : b.dropJump? with
  | none => rw [dropJump_of_none hd]
  | some c =>
    obtain ⟨haddr, i, hi, hinsts⟩ := exists_of_dropJump? hd
    rw [dropJump_of_some hd]
    exact dropJumps_eq_of_concat haddr hi hinsts

/-- A jump at the end is taken off in the end, whether it is dead or not. -/
theorem dropJumps_dropDead_dropJump (b : Block) :
    b.dropJump.dropDead.dropJumps = b.dropDead.dropJumps := by
  cases hd : b.dropJump? with
  | none => rw [dropJump_of_none hd]
  | some c =>
    obtain ⟨haddr, i, hi, hinsts⟩ := exists_of_dropJump? hd
    rw [dropJump_of_some hd]
    have hdead : b.dropDead.insts = c.dropDead.insts ++ [i].filter fun i => !i.isDead := by
      rw [dropDead, retain, hinsts, List.filter_append]
      rfl
    cases hid : i.isDead with
    | true =>
      have hsame : c.dropDead = b.dropDead := by
        have hinsts : b.dropDead.insts = c.dropDead.insts := by simpa [hid] using hdead
        exact congrArg₂ Block.mk haddr hinsts.symm
      rw [hsame]
    | false =>
      exact dropJumps_eq_of_concat haddr hi (by simpa [hid] using hdead)

theorem dropDead_dropDead (b : Block) : b.dropDead.dropDead = b.dropDead := by
  rw [dropDead, dropDead, retain, retain, List.filter_filter]
  simp

/-- Where no jump can be taken off, there is none at the end. -/
theorem dropJumps_of_dropJump {b : Block} (h : b.dropJump = b) : b.dropJumps = b := by
  have hlast : b.insts.rdropWhile (fun i => i.op = .goto) = b.insts := by
    refine List.rdropWhile_eq_self_iff.2 fun hne hgoto => ?_
    have hd : b.dropJump? = some { b with insts := b.insts.dropLast } := by
      rw [dropJump?, List.getLast?_eq_some_getLast hne]
      exact if_pos (of_decide_eq_true hgoto)
    have hlen := length_of_dropJump? hd
    rw [dropJump_of_some hd] at h
    rw [h] at hlen
    omega
  rw [dropJumps, hlast]

/-- **Settled.** What is left of a block when the passes have nothing left to do. -/
def settled (ks : List Stock) (b : Block) : Block :=
  if .removeDead ∈ ks then
    if .removeTrailingJumps ∈ ks then b.dropDead.dropJumps else b.dropDead
  else
    if .removeTrailingJumps ∈ ks then b.dropJumps else b

theorem settled_dropJump {ks : List Stock} (h : .removeTrailingJumps ∈ ks) (b : Block) :
    b.dropJump.settled ks = b.settled ks := by
  simp only [settled, if_pos h, dropJumps_dropJump, dropJumps_dropDead_dropJump]

theorem settled_dropDead {ks : List Stock} (h : .removeDead ∈ ks) (b : Block) :
    b.dropDead.settled ks = b.settled ks := by
  simp only [settled, if_pos h, dropDead_dropDead]

theorem settled_of_stable {ks : List Stock} {b : Block} (hdead : .removeDead ∈ ks → b.dropDead = b)
    (hjump : .removeTrailingJumps ∈ ks → b.dropJump = b) : b.settled ks = b := by
  rw [settled]
  split
  · next h =>
    rw [hdead h]
    split
    · next h => exact dropJumps_of_dropJump (hjump h)
    · rfl
  · split
    · next h => exact dropJumps_of_dropJump (hjump h)
    · rfl

end Block

/-! ### Graphs -/

namespace Cfg

theorem mapBlocks_mapBlocks (g : Cfg) (f f' : Block → Block) :
    (g.mapBlocks f).mapBlocks f' = g.mapBlocks fun b => f' (f b) := by
  rw [mapBlocks, mapBlocks, mapBlocks, mapNodes_mapNodes]
  refine mapNodes_congr fun n _ => ?_
  rw [Option.map_map]
  rfl

theorem mapBlocks_eq_self_iff {g : Cfg} {f : Block → Block} :
    g.mapBlocks f = g ↔ ∀ n ∈ g.nodes, n.block.map f = n.block := by
  rw [mapBlocks, mapNodes_eq_self_iff]
  refine forall₂_congr fun n _ => ⟨congrArg Node.block, fun h => ?_⟩
  rw [h]

/-- **Settled.** What is left of a graph when the passes have nothing left to do. -/
def settled (ks : List Stock) (g : Cfg) : Cfg :=
  if .numberPostorder ∈ ks then (g.mapBlocks (Block.settled ks)).numberPostorder.2
  else g.mapBlocks (Block.settled ks)

/-- No pass changes what will be left. -/
theorem settled_act {ks : List Stock} {k : Stock} (hk : k ∈ ks) (g : Cfg) :
    (k.act g).settled ks = g.settled ks := by
  cases k with
  | numberPostorder =>
    change g.numberPostorder.2.settled ks = g.settled ks
    rw [settled, settled, if_pos hk, if_pos hk, ← numberPostorder_mapBlocks,
      numberPostorder_numberPostorder]
  | removeTrailingJumps =>
    have hsame : (fun b => Block.settled ks (Block.dropJump b)) = Block.settled ks :=
      funext (Block.settled_dropJump hk)
    change (g.mapBlocks Block.dropJump).settled ks = g.settled ks
    rw [settled, settled, mapBlocks_mapBlocks, hsame]
  | removeDead =>
    have hsame : (fun b => Block.settled ks (Block.dropDead b)) = Block.settled ks :=
      funext (Block.settled_dropDead hk)
    change (g.mapBlocks Block.dropDead).settled ks = g.settled ks
    rw [settled, settled, mapBlocks_mapBlocks, hsame]

/-- Nothing is left to do only where everything is done. -/
theorem settled_of_stable {ks : List Stock} {g : Cfg} (h : ∀ k ∈ ks, k.act g = g) :
    g.settled ks = g := by
  have hblocks : g.mapBlocks (Block.settled ks) = g := by
    refine mapBlocks_eq_self_iff.2 fun n hn => ?_
    cases hb : n.block with
    | none => rfl
    | some b =>
      have hblock : ∀ f : Block → Block, g.mapBlocks f = g → f b = b := by
        intro f hf
        have hmap := mapBlocks_eq_self_iff.1 hf n hn
        rw [hb] at hmap
        exact Option.some.inj hmap
      rw [Option.map_some, Block.settled_of_stable (fun hk => hblock _ (h _ hk))
        fun hk => hblock _ (h _ hk)]
  rw [settled, hblocks]
  split
  · next hk => exact h _ hk
  · rfl

/-- It does not matter in which order the passes are, or how often. -/
theorem settled_congr {ks ks' : List Stock} (h : ∀ k, k ∈ ks ↔ k ∈ ks') (g : Cfg) :
    g.settled ks = g.settled ks' := by
  have hblock : Block.settled ks = Block.settled ks' := by
    funext b
    simp only [Block.settled, h]
  simp only [settled, hblock, h]

/-- **Enough rounds.** As many rounds as there is to do end where the passes settle. -/
theorem rounds_eq_settled (ks : List Stock) {n : Nat} {g : Cfg} (hn : g.toDo ≤ n) :
    (inTurn Stock.act ks)^[n] g = g.settled ks ∧ ∀ k ∈ ks, k.act (g.settled ks) = g.settled ks := by
  have hdescends : ∀ k ∈ ks, Descends toDo k.act := fun k _ => k.descends
  have hstable := (Descends.inTurn_eq_iff hdescends _).1 ((Descends.inTurn hdescends).settles hn)
  have hkept : ((inTurn Stock.act ks)^[n] g).settled ks = g.settled ks :=
    rounds_keep (R := fun h g => settled ks h = settled ks g) (fun _ => rfl) (fun _ _ _ => .trans)
      (fun _ hk => settled_act hk) n g
  rw [settled_of_stable hstable] at hkept
  exact ⟨hkept, hkept ▸ hstable⟩

theorem block?_settled (ks : List Stock) (g : Cfg) (addr : String) :
    (g.settled ks).block? addr = (g.block? addr).map (Block.settled ks) := by
  rw [settled]
  split
  · rw [block?_numberPostorder, block?_mapBlocks]
  · rw [block?_mapBlocks]

end Cfg

/-! ### Scripts -/

/-- **Settled runs.** With two rounds more than there are instructions, a script of stock passes
ends with a graph that they all leave as it is, however often they run again. Any script that asks
for the same passes ends with the same graph. If it asks for both passes on blocks, what is left of
a block are its instructions that are not dead, in their order, without the jumps at their end. -/
theorem stock_runs_settle (script : Script)
    (hs : ∀ s ∈ script, (Catalog.stock (σ := σ)).contains s.kind s.name = true) (config : Config)
    (g : Cfg) (hrounds : g.instCount + 2 ≤ config.maxRounds) :
    ∃ changed h, script.Runs σ config g changed h ∧
      (∀ again, script.Runs σ again h false h) ∧
      (∀ (other : Script) (config' : Config),
        (∀ s ∈ other, (Catalog.stock (σ := σ)).contains s.kind s.name = true) →
        (∀ k, other.Asks k ↔ script.Asks k) → g.instCount + 2 ≤ config'.maxRounds →
        ∃ changed', other.Runs σ config' g changed' h) ∧
      (script.Asks .removeDead → script.Asks .removeTrailingJumps → ∀ addr,
        h.block? addr = (g.block? addr).map fun b => { b with
          insts := (b.insts.filter fun i => !i.isDead).rdropWhile fun i => i.op = .goto }) := by
  obtain ⟨ks, hks, hruns⟩ := Script.exists_runs hs config
  have henough : ∀ {n}, g.instCount + 2 ≤ n → g.toDo ≤ n := fun hn => by
    have := g.toDo_le
    omega
  obtain ⟨hend, hstable⟩ := Cfg.rounds_eq_settled ks (henough hrounds)
  refine ⟨_, g.settled ks, hend ▸ hruns g, fun again => ?_, fun other config' hother hasks hn => ?_,
    fun hdead hjumps addr => ?_⟩
  · obtain ⟨ks', hks', hruns'⟩ := Script.exists_runs hs again
    have hstay : (inTurn Stock.act ks')^[again.maxRounds] (g.settled ks) = g.settled ks := by
      refine Function.iterate_fixed ?_ _
      refine (Descends.inTurn_eq_iff (fun k _ => k.descends) _).2 fun k hk => hstable k ?_
      exact (hks k).2 ((hks' k).1 hk)
    have hrun := hruns' (g.settled ks)
    rw [hstay] at hrun
    simpa using hrun
  · obtain ⟨ks', hks', hruns'⟩ := Script.exists_runs hother config'
    have hsame : ∀ k, k ∈ ks' ↔ k ∈ ks := fun k => (hks' k).trans ((hasks k).trans (hks k).symm)
    have hend' := (Cfg.rounds_eq_settled ks' (henough hn)).1
    rw [Cfg.settled_congr hsame] at hend'
    exact ⟨_, hend' ▸ hruns' g⟩
  · rw [Cfg.block?_settled]
    refine congrArg (fun f => (g.block? addr).map f) (funext fun b => ?_)
    rw [Block.settled, if_pos ((hks _).2 hdead), if_pos ((hks _).2 hjumps)]
    rfl

/-- A block where a dead jump stands between jumps. -/
def litteredBlock : Block where
  addr := "a"
  insts := [.ret, .goto (.reg "x"), (Inst.goto (.reg "y")).markDead, .goto (.reg "z")]

/-- The block is tidied up, no matter which pass comes first. -/
theorem littered_block_settles :
    (Cfg.build [.block litteredBlock]).instCount + 2 ≤ 6 ∧
      ∃ changed changed' h,
        tidyScript.Runs Unit { maxRounds := 6 } (.build [.block litteredBlock]) changed h ∧
        Script.Runs Unit tidyScript.reverse { maxRounds := 9 } (.build [.block litteredBlock])
          changed' h ∧
        tidyScript.Runs Unit {} h false h ∧
        h.block? "a" = some { addr := "a", insts := [.ret] } := by
  have hcount : (Cfg.build [.block litteredBlock]).instCount = 4 := by decide +kernel
  have hs : ∀ s ∈ tidyScript, (Catalog.stock (σ := Unit)).contains s.kind s.name = true := by
    decide +kernel
  have hasks : ∀ k, Script.Asks tidyScript.reverse k ↔ tidyScript.Asks k := fun k => by
    simp only [Script.Asks, List.mem_reverse]
  obtain ⟨changed, h, hruns, hagain, hother, hblock⟩ :=
    stock_runs_settle tidyScript hs { maxRounds := 6 } (.build [.block litteredBlock])
      (by rw [hcount])
  obtain ⟨changed', hruns'⟩ := hother tidyScript.reverse { maxRounds := 9 }
    (fun s hmem => hs s (List.mem_reverse.1 hmem)) hasks (by rw [hcount]; decide)
  refine ⟨by rw [hcount], changed, changed', h, hruns, hruns', hagain _, ?_⟩
  rw [hblock ⟨_, .tail _ (.head _), rfl, rfl⟩ ⟨_, .head _, rfl, rfl⟩]
  decide +kernel

end FlowText
