import P4Benchmarks.Lib.Register
import Mathlib.Data.BitVec
/-!
# P4-Protect: 1+1 protection

There are two versions of the program: one for Tofino with 32-bit numbers (`ProtectForward.p4` and
`Decaps_P.p4`) and one for bmv2 with 8-bit numbers (`Ipv4.p4` and `Protect.p4`).
-/
namespace P4Benchmarks.Protect
open Lib
def typeIpv4 : BitVec 16 := 0x800
def typeProtection : BitVec 16 := 0xDD01
def typeIpIp : BitVec 8 := 0x04
def typeIpProtection : BitVec 8 := 0x8F
def typeIpProtectionRequest : BitVec 8 := 0x9A
def cpuPort : BitVec 9 := 192
def protectionStorage : Nat := 8192

structure Ipv4 where
  (srcAddr dstAddr : BitVec 32)
  (protocol ttl : BitVec 8)
  deriving Inhabited

structure Protection (w : Nat) where
  connId : BitVec 16
  seq : BitVec w
  proto : BitVec 8
  deriving Inhabited

structure ProtectionReset where
  (connId deviceType : BitVec 32)
  deriving Inhabited

structure Packet (w : Nat) where
  etherType : BitVec 16
  ipv4Valid : Bool
  ipv4 : Ipv4
  (srcPort dstPort : BitVec 16)
  protectionValid : Bool
  protection : Protection w
  resetValid : Bool
  reset : ProtectionReset
  innerValid : Bool
  ipv4Inner : Ipv4
  deriving Inhabited

structure FlowKey where
  (srcAddr dstAddr : BitVec 32)
  (srcPort dstPort : BitVec 16)
  protocol : BitVec 8
  deriving DecidableEq
variable {w : Nat} (p : Packet w)
def Packet.flowKey : FlowKey := ⟨p.ipv4.srcAddr,p.ipv4.dstAddr,p.srcPort,p.dstPort,p.ipv4.protocol⟩

structure Outcome where
  egressPort : Option (BitVec 9) := none
  mcastGrp : Option (BitVec 16) := none
  clonedToController : Bool := false
  recirculated : Bool := false

inductive Route where
  | forward (port : BitVec 9)
  | decap

def Packet.forward : Packet w := { p with ipv4.ttl := p.ipv4.ttl-1 }
def Packet.decap : Packet w := { p with ipv4Valid := false, etherType := typeProtection }

/-- The headers that `protect` adds: the protection header, and a tunnel around the packet. -/
def Packet.encapsulate (id : BitVec 16) (srcAddr dstAddr : BitVec 32) : Packet w :=
  { p with
    protectionValid := true
    protection.connId := id
    protection.proto := typeIpIp
    innerValid := true
    ipv4Inner := p.ipv4
    ipv4.srcAddr := srcAddr
    ipv4.dstAddr := dstAddr
    ipv4.protocol := typeIpProtection }

def Packet.unwrap : Packet w :=
  { p with
    protectionValid := false
    ipv4Valid := true
    ipv4 := p.ipv4Inner
    innerValid := false
    etherType := typeIpv4 }
namespace Tofino
def seqWindow : BitVec 32 := 2147483648

structure ProtectEntry where
  (i id grp : BitVec 16)
  (srcAddr dstAddr : BitVec 32)

structure Tables where
  protectedFlows : FlowKey → Option ProtectEntry
  ipv4 : BitVec 32 → Option Route

abbrev Seqs := Register protectionStorage 32

def routed (T : Tables) (p : Packet 32) : Packet 32 × Outcome :=
  match T.ipv4 p.ipv4.dstAddr with
  | some (.forward port) => (p.forward,{ egressPort := some port })
  | some .decap => (p.decap,{})
  | none => (p,{})

def protectForward (junk : Unspecified) (T : Tables) (seqs : Seqs) (p : Packet 32) : Seqs × Packet 32 × Outcome :=
  if p.ipv4.protocol=typeIpProtectionRequest then (seqs,p,{ egressPort := some cpuPort })
  else
    match T.protectedFlows p.flowKey with
    | none => (seqs,routed T p)
    | some e =>
      let p := p.encapsulate e.id e.srcAddr e.dstAddr
      let out : Outcome := { mcastGrp := some e.grp }
      if p.resetValid ∧ p.reset.deviceType=0 then (seqs.write (p.reset.connId.setWidth 16).toNat 0,p,out)
      else
        let value := seqs.read junk e.i.toNat
        (seqs.write e.i.toNat (value+1),{ p with protection.seq := value },out)
variable (seq value : BitVec 32)
def assumedNextSeqAction : BitVec 32 × Bool :=
  if seq ≥ value ∧ seq-value ≤ seqWindow then (seq+1,true) else (value,false)

def assumedNextSeqAction2 : BitVec 32 × Bool :=
  if seq ≥ value ∨ value-seq ≥ seqWindow then (seq+1,true) else (value,false)

def select : BitVec 32 × Bool :=
  if seq ≥ seqWindow then assumedNextSeqAction seq value else assumedNextSeqAction2 seq value

/-- `Decaps_P`; `seqs` is `protection_assumed_next_seq`. The last component is `accepted`. -/
def decapsP (junk : Unspecified) (seqs : Seqs) (p : Packet 32) : Seqs × Packet 32 × Bool :=
  if p.resetValid ∧ p.reset.deviceType=1 then (seqs.write (p.reset.connId.setWidth 16).toNat 0,p,false)
  else
    let i := p.protection.connId.toNat
    let r := select p.protection.seq (seqs.read junk i)
    (seqs.write i r.1,if r.2 then p.unwrap else p,r.2)
end Tofino
namespace Bmv2
def seqMax : Nat := 255

structure ProtectEntry where
  (id grp : BitVec 16)
  (srcAddr dstAddr : BitVec 32)

structure Tables where
  l3MatchToIndex : FlowKey → Option ProtectEntry
  protectedServices : FlowKey → Bool
  (ipv4 ipv4Tunnel : BitVec 32 → Option Route)

abbrev Seqs := Register protectionStorage 8
variable (junk : Unspecified)
def protect (e : ProtectEntry) (seqs : Seqs) (p : Packet 8) : Seqs × Packet 8 × Outcome :=
  let nextSeq := seqs.read junk e.id.toNat
  let p := p.encapsulate e.id e.srcAddr e.dstAddr
  (seqs.write e.id.toNat (nextSeq+1),{ p with protection.seq := nextSeq },{ mcastGrp := some e.grp })

def route (r : Route) (p : Packet 8) (out : Outcome) : Packet 8 × Outcome :=
  match r with
  | .forward port => (p.forward,{ out with egressPort := some port })
  | .decap => (p.decap,{ out with recirculated := true })

def routed (T : Tables) (p : Packet 8) : Packet 8 × Outcome :=
  let out : Outcome := { clonedToController := T.protectedServices p.flowKey }
  match T.ipv4 p.ipv4.dstAddr with
  | some r => route r p out
  | none =>
    match T.ipv4Tunnel p.ipv4.dstAddr with
    | some r => route r p out
    | none => (p,out)

def ipv4 (T : Tables) (seqs : Seqs) (p : Packet 8) : Seqs × Packet 8 × Outcome :=
  if p.resetValid ∧ p.reset.deviceType=0 then (seqs.write p.reset.connId.toNat 0,p,{})
  else
    match T.l3MatchToIndex p.flowKey with
    | some e => protect junk e seqs p
    | none => (seqs,routed T p)

def accepts (seqIn seqAssumed : BitVec 8) : Bool :=
  if seqIn ≥ seqAssumed ∧ seqIn-seqAssumed≤.ofNat 8 (seqMax/2) then true
  else if seqIn < seqAssumed ∧ seqAssumed-seqIn ≥ .ofNat 8 (seqMax/2) then true
  else false

/-- `Protect`; `seqs` is `protection_assumed_next_seq`. The last component is `accepted`. -/
def protectSelection (seqs : Seqs) (p : Packet 8) : Seqs × Packet 8 × Bool :=
  if p.resetValid ∧ p.reset.deviceType=1 then (seqs.write p.reset.connId.toNat 0,p,false)
  else
    let i := p.protection.connId.toNat
    if accepts p.protection.seq (seqs.read junk i) then (seqs.write i (p.protection.seq+1),p.unwrap,true)
    else (seqs,p,false)
end Bmv2
end P4Benchmarks.Protect
