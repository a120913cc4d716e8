import Mathlib.Algebra.GroupWithZero.Nat
import P4Benchmarks.Lib.LinearSketch
/-!
# A LossRadar switch

Every switch meters what it sends to a port and what it receives from a port, in two alternating
batches.
-/
namespace P4Benchmarks.LossRadar
abbrev Port := Fin 4

scoped instance neZero_four : NeZero 4 := Nat.instNeZeroSucc

def lossradarProtocol : BitVec 8 := 0xFC
def dropPort : Nat := 511

structure LossRadarHdr where
  batchID : BitVec 1
  timestamp : BitVec 13
  protocol : BitVec 8
  deriving DecidableEq

structure TcpHdr where
  (srcPort dstPort : BitVec 16)
  deriving DecidableEq

structure Packet where
  (totalLen identification : BitVec 16)
  (ttl protocol : BitVec 8)
  (srcAddr dstAddr : BitVec 32)
  lossradarHdr : Option LossRadarHdr
  tcp : Option TcpHdr
  deriving DecidableEq
variable (p : Packet)
def Packet.hdr : LossRadarHdr := p.lossradarHdr.getD ⟨0,0,0⟩

/-- The headers are those that the parser finds behind the IPv4 header. -/
structure Packet.Parsed (p : Packet) : Prop where
  lossradar : p.lossradarHdr.isSome ↔ p.protocol=lossradarProtocol
  tcp : p.tcp.isSome ↔ (if p.protocol=lossradarProtocol then p.hdr.protocol else p.protocol)=6

structure Arrival where
  packet : Packet
  ingressPort : Port
  ingressTimestamp : BitVec 48
  parsed : packet.Parsed

inductive LpmAction where
  | setNhop (nhop : BitVec 32) (port : Port)
  | drop
  | noAction

/-- The tables of a switch: whether `forward` and `send_frame` let a packet pass, and which packets
get or lose the LossRadar header. -/
structure Tables where
  ipv4Lpm : BitVec 32 → LpmAction
  forward : BitVec 32 → Bool
  sendFrame : Nat → Bool
  addHdr : BitVec 8 → Bool
  removeHdr : Nat → BitVec 8 → Bool
  /-- A LossRadar packet has the header already. -/
  addHdr_lossradar : addHdr lossradarProtocol=false
  /-- Other packets have none to remove. -/
  removeHdr_lossradar : ∀ port protocol, removeHdr port protocol → protocol=lossradarProtocol

structure Key where
  (srcAddr dstAddr : BitVec 32)
  tcp : Option TcpHdr
  protocol : BitVec 8
  identification : BitVec 16
  timestamp : BitVec 13
  ttl : BitVec 8
  deriving DecidableEq

abbrev Hashes := Fin 3 → Key → Nat

scoped instance neZero_three : NeZero 3 := Nat.instNeZeroSucc

/-- One index of the meter registers. The registers for the destination address, the ports and the
protocol are never written. -/
@[ext] structure Cell where
  pktCnt : BitVec 16
  xorSrcip : BitVec 32
  xorIpid : BitVec 16
  xorTimestamp : BitVec 13
  xorTtl : BitVec 8
  deriving DecidableEq
namespace Cell
def zero : Cell := ⟨0,0,0,0,0⟩

@[local simp] def merge (a b : Cell) : Cell :=
  ⟨a.pktCnt+b.pktCnt,a.xorSrcip^^^b.xorSrcip,a.xorIpid^^^b.xorIpid,
    a.xorTimestamp^^^b.xorTimestamp,a.xorTtl^^^b.xorTtl⟩

def diff (a b : Cell) : Cell :=
  ⟨a.pktCnt-b.pktCnt,a.xorSrcip^^^b.xorSrcip,a.xorIpid^^^b.xorIpid,
    a.xorTimestamp^^^b.xorTimestamp,a.xorTtl^^^b.xorTtl⟩

instance : Zero Cell := ⟨zero⟩
instance : Add Cell := ⟨merge⟩
instance : Neg Cell := ⟨fun a => { a with pktCnt := -a.pktCnt }⟩
instance : Sub Cell := ⟨diff⟩

instance : AddCommGroup Cell where
  nsmul := nsmulRec
  zsmul := zsmulRec
  add_assoc a b c := by
    change merge (merge a b) c=merge a (merge b c)
    simp [BitVec.add_assoc,BitVec.xor_assoc]
  zero_add a := by
    change merge zero a=a
    simp [zero]
  add_zero a := by
    change merge a zero=a
    simp [zero]
  neg_add_cancel a := by
    change merge { a with pktCnt := -a.pktCnt } a=zero
    simp only [merge,BitVec.xor_self,BitVec.add_left_neg]
    rfl
  add_comm a b := by
    change merge a b=merge b a
    simp [BitVec.add_comm,BitVec.xor_comm]
  sub_eq_add_neg a b := by
    change diff a b=merge a { b with pktCnt := -b.pktCnt }
    simp [diff,BitVec.sub_eq_add_neg]
end Cell

abbrev Meter := BitVec 8 → Cell

def meterIdx (port batch : Nat) (i : Fin 3) (hash : Nat) : BitVec 8 :=
  .ofNat 8 (8*i.val+32*port+128*batch+hash%8)
variable (hash : Hashes)
def meterIdxs (port batch : Nat) (k : Key) : List (BitVec 8) :=
  [meterIdx port batch 0 (hash 0 k),meterIdx port batch 1 (hash 1 k),meterIdx port batch 2 (hash 2 k)]

structure State where
  (um dm : Meter)

def State.cleared : State := ⟨fun _ => 0,fun _ => 0⟩

structure Phv where
  packet : Packet
  nhopIpv4 : BitVec 32
  egressSpec : Nat
  drop : Bool
namespace Phv
def dropped (v : Phv) : Phv := { v with drop := true, egressSpec := dropPort }
variable (sw : Tables) (v : Phv)
def ipv4Lpm : Phv :=
  match sw.ipv4Lpm v.packet.dstAddr with
  | .setNhop nhop port =>
    { v with
      nhopIpv4 := nhop
      egressSpec := port.val
      packet := { v.packet with ttl := v.packet.ttl-1 } }
  | .drop => v.dropped
  | .noAction => v

def forward : Phv := if sw.forward v.nhopIpv4 then v else v.dropped

def addLossradarHdr (p : Packet) : Packet :=
  { p with
    lossradarHdr := some { p.hdr with protocol := p.protocol }
    protocol := lossradarProtocol
    totalLen := p.totalLen+3 }

def addHdr : Phv := if sw.addHdr v.packet.protocol then { v with packet := addLossradarHdr v.packet } else v
def routed (p : Packet) : Phv := addHdr sw (forward sw (ipv4Lpm sw ⟨p,0,0,false⟩))
end Phv
variable (ts : BitVec 48)
def thisBatch : BitVec 1 := .ofNat 1 (ts.toNat/8192%2)
def batchTimestamp : BitVec 13 := .ofNat 13 (ts.toNat%8192)
variable (timestamp : BitVec 13) (ttl : BitVec 8)
def Packet.key : Key := ⟨p.srcAddr,p.dstAddr,p.tcp,p.hdr.protocol,p.identification,timestamp,ttl⟩
def Packet.entry : Cell := ⟨1,p.srcAddr,p.identification,timestamp,ttl⟩

def lossRadarUm (v : Phv) (ts : BitVec 48) (m : Meter) : Meter :=
  Lib.bump m (meterIdxs hash v.egressSpec (thisBatch ts).toNat (v.packet.key (batchTimestamp ts) v.packet.ttl))
    (v.packet.entry (ts.setWidth 13) v.packet.ttl)

def Phv.originalTtl (v : Phv) : BitVec 8 := v.packet.ttl+1

def lossRadarDm (v : Phv) (port : Port) (m : Meter) : Meter :=
  Lib.bump m (meterIdxs hash port.val v.packet.hdr.batchID.toNat (v.packet.key v.packet.hdr.timestamp v.originalTtl))
    (v.packet.entry v.packet.hdr.timestamp v.originalTtl)

def stamp : Packet :=
  { p with
    lossradarHdr := some { p.hdr with batchID := thisBatch ts, timestamp := ts.setWidth 13 } }
variable (sw : Tables)
def State.ingress (s : State) (a : Arrival) : State :=
  let v := Phv.routed sw a.packet
  { um := if v.packet.protocol=lossradarProtocol ∧ v.drop=false then
      lossRadarUm hash v a.ingressTimestamp s.um else s.um
    dm := if v.packet.protocol=lossradarProtocol then lossRadarDm hash v a.ingressPort s.dm else s.dm }

def removeLossradarHdr : Packet :=
  { p with protocol := p.hdr.protocol, lossradarHdr := none, totalLen := p.totalLen-3 }

def afterIngress (a : Arrival) : Packet :=
  let p := (Phv.routed sw a.packet).packet
  if p.protocol=lossradarProtocol then stamp p a.ingressTimestamp else p

def emit (a : Arrival) : Option (Nat × Packet) :=
  let port := (Phv.routed sw a.packet).egressSpec
  let p := afterIngress sw a
  if port=dropPort ∨ sw.sendFrame port=false then none
  else if sw.removeHdr port p.protocol then some (port,removeLossradarHdr p)
  else some (port,p)
end P4Benchmarks.LossRadar
