import P4Benchmarks.Bier.Entries
/-!
# BIER: a network of switches

The control `Bier` for a packet with the action that `bift` selects, and for a clone in the egress.  The
copies of a packet are processed in any order, with any choice among the matching entries.
-/
namespace P4Benchmarks.Bier
open Lib
def typeIpv4 : BitVec 16 := 0x800
def typeBier : BitVec 16 := 0xBB00
def typeIpBier : BitVec 8 := 0x8F

structure Ipv4 where
  protocol : BitVec 8
  (srcAddr dstAddr : BitVec 32)

/-- The headers that the control uses; without a BIER header its fields may hold anything. -/
structure Packet where
  etherType : BitVec 16
  ipv4 : Option Ipv4
  bierValid : Bool
  bitString : BitVec 64
  proto : BitVec 16
  ipv4Inner : Option Ipv4

structure Metadata where
  remainingBits : BitVec 64
  mdValid : Bool

def Metadata.fresh : Metadata := ⟨0,false⟩
variable (m : Metadata) (p : Packet)
def Metadata.setMetaData : Metadata := if m.mdValid then m else ⟨p.bitString,true⟩
def Metadata.remove (mask : BitVec 64) : Metadata := { m with remainingBits := m.remainingBits&&&~~~mask }

/-- A packet at the end of the ingress, its port, the metadata of its clone, and whether it is
recirculated instead of sent. -/
structure Ingress where
  packet : Packet
  egressSpec : BitVec 9
  clone : Option Metadata
  recirculate : Bool

def Action.apply (m : Metadata) : Action → Ingress
  | .forward fbm port => ⟨{ p with bitString := p.bitString&&&fbm },port,some (m.remove fbm),false⟩
  | .forwardEncap fbm srcAddr dstAddr =>
    ⟨{ p with ipv4 := some ⟨typeIpBier,srcAddr,dstAddr⟩, etherType := typeIpv4 },0,some (m.remove fbm),true⟩
  | .decap decapBit =>
    ⟨{ p with etherType := p.proto, bierValid := false, ipv4 := p.ipv4Inner, ipv4Inner := none },0,
      some (m.remove decapBit),true⟩

def bierIngress (m : Metadata) : Option Action → Ingress
  | some action => action.apply p (m.setMetaData p)
  | none => ⟨p,0,none,false⟩

def cloneRecirculates : Prop := m.remainingBits≠0
instance (m : Metadata) : Decidable (cloneRecirculates m) := inferInstanceAs (Decidable (_≠_))
variable {V : Type} [DecidableEq V]
structure Pending (V : Type) where
  node : V
  packet : Packet
  metadata : Metadata

structure Network (V : Type) where
  pending : Multiset (Pending V)
  recirculated : Multiset (V × Packet)

def Network.entering (u : V) (p : Packet) : Network V := ⟨{⟨u,p,.fresh⟩},0⟩
def Pending.remainingBits (c : Pending V) : BitVec 64 := (c.metadata.setMetaData c.packet).remainingBits

section
variable (T : Topology V) (protection : Protection)
def Topology.peer (u : V) (port : BitVec 9) : Option V := T.nodes.find? fun w => T.port u w=some port.toNat
variable (c : Pending V)
def Selects : Option Action → Prop
  | some action => ∃ e ∈ T.bift protection c.node, e.Matches c.remainingBits Topology.allUp ∧ e.action=action
  | none => ∀ e ∈ T.bift protection c.node, ¬e.Matches c.remainingBits Topology.allUp
variable (i : Ingress)
def Pending.cloned : Multiset (Pending V) :=
  match i.clone with
  | some m => if cloneRecirculates m then {⟨c.node,c.packet,m⟩} else 0
  | none => 0

def Pending.sent : Multiset (Pending V) :=
  if i.recirculate then 0
  else
    match T.peer c.node i.egressSpec with
    | some w => {⟨w,i.packet,.fresh⟩}
    | none => 0

def Pending.left : Multiset (V × Packet) := if i.recirculate then {(c.node,i.packet)} else 0

inductive Step : Network V → Network V → Prop
  | process {c : Pending V} {rest : Multiset (Pending V)} {recirculated : Multiset (V × Packet)}
      (hbier : c.packet.etherType=typeBier) (action : Option Action)
      (h : Selects T protection c action) :
      Step ⟨c ::ₘ rest,recirculated⟩
        ⟨c.cloned (bierIngress c.packet c.metadata action) + c.sent T (bierIngress c.packet c.metadata action)+rest,
          c.left (bierIngress c.packet c.metadata action)+recirculated⟩
end

def decapsulations (recirculated : Multiset (V × Packet)) : Multiset V :=
  (recirculated.filter fun x => x.2.bierValid=false).map Prod.fst

def Network.decapsulated (n : Network V) : Multiset V := decapsulations n.recirculated
end P4Benchmarks.Bier
