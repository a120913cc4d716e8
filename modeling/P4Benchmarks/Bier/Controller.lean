import P4Benchmarks.Lib.Multicast
/-!
# BIER: the forwarding entries

`BierController.py`. For each switch the controller computes the next hop of every other BFR from
shortest paths, a bit mask of the BFRs behind each next hop, and from these the entries of the
table `bift`.
-/
namespace P4Benchmarks.Bier
variable {V : Type} [DecidableEq V]
def IsPath (port : V → V → Option Nat) (l : List V) (u v : V) : Prop :=
  l.head?=some u ∧ l.getLast?=some v ∧ l.IsChain fun a b => (port a b).isSome

/-- BFRs of one domain with the shortest paths between them. Ids and ports fit the bit strings of the
tables. -/
structure Topology (V : Type) [DecidableEq V] where
  nodes : List V
  bfrId : V → Nat
  ip : V → BitVec 32
  port : V → V → Option Nat
  paths : V → V → Option (List V)
  mem_nodes : ∀ v, v ∈ nodes
  bfrId_range : ∀ v, 1≤bfrId v ∧ bfrId v≤64
  bfrId_injective : Function.Injective bfrId
  ip_injective : Function.Injective ip
  port_range : ∀ u w p, port u w=some p → 1≤p ∧ p≤8
  port_injective : ∀ u w w' p, port u w=some p → port u w'=some p → w=w'
  shortest : ∀ u v l, paths u v=some l → IsPath port l u v ∧ ∀ l', IsPath port l' u v → l.length≤l'.length
  complete : ∀ u v l, IsPath port l u v → (paths u v).isSome

inductive Action where
  | forward (fbm : BitVec 64) (port : BitVec 9)
  | forwardEncap (fbm : BitVec 64) (srcAddr dstAddr : BitVec 32)
  | decap (decapBit : BitVec 64)

structure Entry where
  remainingBits : BitVec 64 × BitVec 64
  status : BitVec 8 × BitVec 8
  action : Action

def Entry.Matches (e : Entry) (remainingBits : BitVec 64) (status : BitVec 8) : Prop :=
  remainingBits&&&e.remainingBits.2=e.remainingBits.1 ∧ status&&&e.status.2=e.status.1

def idToBitstring (w id : Nat) : BitVec w := BitVec.twoPow w (id-1)

structure BirtRow where
  bfrId : Nat
  (destination nbr : BitVec 32)

structure BiftRow (V : Type) where
  bfrId : Nat
  fbm : BitVec 64
  nextHop : V

inductive Protection where
  | none
  | link
  | node

def getFbm (birt : List BirtRow) (nextHop : BitVec 32) : BitVec 64 :=
  birt.foldl (fun fbm row => if row.nbr=nextHop then fbm|||idToBitstring 64 row.bfrId else fbm) 0
namespace Topology
variable (T : Topology V)
def getNextHop (startNode destinationNode : V) : Option V :=
  match T.paths startNode destinationNode with
  | some (_::nextHop::_) => some nextHop
  | _ => none
variable (switch : V)
def buildBirt : List BirtRow :=
  T.nodes.filterMap fun destination =>
    if destination≠switch then
      (T.getNextHop switch destination).map fun nextHop =>
        ⟨T.bfrId destination,T.ip destination,T.ip nextHop⟩
    else none

def getDeviceById (id : Nat) : Option V := T.nodes.find? fun v => T.bfrId v=id

def buildBift : Option (List (BiftRow V)) :=
  let birt := T.buildBirt switch
  birt.mapM fun row => do
    let destination ← T.getDeviceById row.bfrId
    let nextHop ← T.getNextHop switch destination
    some ⟨row.bfrId,getFbm birt row.nbr,nextHop⟩

def frrNodeProtection (port : Nat) (row : BiftRow V) : Option (Option Entry) := do
  let bit := idToBitstring 64 row.bfrId
  let computed ← T.buildBift row.nextHop
  let biftNh := if T.bfrId row.nextHop=row.bfrId then ⟨row.bfrId,bit,row.nextHop⟩::computed else computed
  some ((biftNh.find? fun r => r.bfrId=row.bfrId).map fun r =>
    ⟨(bit,bit),(0,idToBitstring 8 port),.forwardEncap (row.fbm&&&r.fbm) (T.ip switch) (T.ip r.nextHop)⟩)

def frrLinkProtection (port : Nat) (row : BiftRow V) : Entry :=
  let bit := idToBitstring 64 row.bfrId
  ⟨(bit,bit),(0,idToBitstring 8 port),.forwardEncap row.fbm (T.ip switch) (T.ip row.nextHop)⟩
variable (protection : Protection)
def rowEntries (switch : V) (row : BiftRow V) : Option (List Entry) := do
  let bit := idToBitstring 64 row.bfrId
  let outPort ← T.port switch row.nextHop
  let frr ←
    match protection with
    | .none => some []
    | .link => some [T.frrLinkProtection switch outPort row]
    | .node => (T.frrNodeProtection switch outPort row).map Option.toList
  some (⟨(bit,bit),(idToBitstring 8 outPort,idToBitstring 8 outPort),.forward row.fbm (.ofNat 9 outPort)⟩::frr)

def decapEntry : Entry :=
  let bit := idToBitstring 64 (T.bfrId switch)
  ⟨(bit,bit),(0,0),.decap bit⟩

def updateBierForwardingEntries (switch : V) : Option (List Entry) := do
  let bift ← T.buildBift switch
  let entries ← bift.mapM (T.rowEntries protection switch)
  some (entries.flatten++[T.decapEntry switch])
end Topology
end P4Benchmarks.Bier
