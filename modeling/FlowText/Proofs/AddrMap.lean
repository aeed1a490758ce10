import FlowText.Proofs.Building
import FlowText.Proofs.DepthFirst

/-!
# Maps of addresses

A graph without identifiers: the addresses in the order in which they were first mentioned, and at
each one its block, its number and its exits, which are the targets with their conditions in the
order of addition. A map is changed as a graph is (`AddrMap.attempt`, `AddrMap.run`).
-/

namespace FlowText

/-- An address with what a map holds there. -/
structure Place where
  addr : String
  block : Option Block := none
  number : Option Nat := none
  /-- where the edges of the address lead, with their conditions -/
  exits : List (String × Option Cond) := []

/-- What is held at a place, without the exits. -/
def Place.node (p : Place) : Node where
  addr := p.addr
  block := p.block
  number := p.number

/-- **Put.** An exit that is there already keeps its place and gets the new condition. -/
def putExit (target : String) (cond : Option Cond) :
    List (String × Option Cond) → List (String × Option Cond)
  | [] => [(target, cond)]
  | exit :: exits =>
    if exit.1 = target then (target, cond) :: exits else exit :: putExit target cond exits

/-- **Map.** The places in the order in which their addresses were first mentioned, and the chosen
entry. -/
structure AddrMap where
  places : List Place := []
  chosen : Option String := none

namespace AddrMap

/-! ### Questions -/

def addrs (m : AddrMap) : List String := m.places.map Place.addr

def place? (m : AddrMap) (addr : String) : Option Place := m.places.find? (·.addr == addr)

def block? (m : AddrMap) (addr : String) : Option Block := (m.place? addr).bind Place.block

def number? (m : AddrMap) (addr : String) : Option Nat := (m.place? addr).bind Place.number

def exits (m : AddrMap) (addr : String) : List (String × Option Cond) :=
  ((m.place? addr).map Place.exits).getD []

def succ (m : AddrMap) (addr : String) : List String := (m.exits addr).map Prod.fst

def edgeCond? (m : AddrMap) (source target : String) : Option Cond :=
  ((m.exits source).find? (·.1 == target)).bind Prod.snd

/-- The chosen entry, or else the first address. -/
def entry? (m : AddrMap) : Option String := m.chosen.or m.addrs.head?

/-- The addresses that can be reached from the entry, each behind what is reached from it. -/
def postorder (m : AddrMap) : List String :=
  match m.entry? with
  | some addr => depthFirst m.succ m.addrs [] [addr]
  | none => []

/-! ### Changes -/

/-- Adds a place for an address that has none. -/
def mention (m : AddrMap) (addr : String) : AddrMap :=
  if addr ∈ m.addrs then m else { m with places := m.places ++ [{ addr }] }

/-- Changes what is held at an address. -/
def modify (m : AddrMap) (addr : String) (f : Place → Place) : AddrMap :=
  { m with places := m.places.map fun p => if p.addr = addr then f p else p }

/-- Numbers the addresses of a list from one, and clears all other numbers. -/
def number (m : AddrMap) (order : List String) : AddrMap :=
  { m with
    places := m.places.map fun p =>
      { p with number := if p.addr ∈ order then some (order.idxOf p.addr + 1) else none } }

/-- **Step.** What a change makes of a map, or why it is refused. -/
def attempt (m : AddrMap) : Change → Except GraphError AddrMap
  | .node addr => .ok (m.mention addr)
  | .block b =>
    if (m.block? b.addr).isSome then .error (.duplicateBlock b.addr)
    else .ok ((m.mention b.addr).modify b.addr fun p => { p with block := some b })
  | .edge source target cond =>
    .ok (((m.mention source).mention target).modify source fun p =>
      { p with exits := putExit target cond p.exits })
  | .edgeCond source target cond =>
    if target ∈ m.succ source then
      .ok (m.modify source fun p => { p with exits := putExit target cond p.exits })
    else .error (.noEdge source target)
  | .number addr number =>
    if addr ∈ m.addrs then
      .ok (m.modify addr fun p => { p with number := number.map UInt64.toNat })
    else .error (.unknownAddr addr)
  | .entry addr =>
    if addr ∈ m.addrs then .ok { m with chosen := some addr } else .error (.unknownEntry addr)
  | .postorder => .ok (m.number m.postorder)

/-- **Run.** The map after a list of changes. One that is refused leaves it as it is. -/
def run (changes : List Change) : AddrMap :=
  changes.foldl (fun m c => (m.attempt c).toOption.getD m) {}

end AddrMap

end FlowText
