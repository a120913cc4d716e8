import P4Benchmarks.P4xos.Header
/-!
# The learner switch

`learner.p4`: the learner keeps, per instance, the highest round it has seen and one bit for each
acceptor whose vote in that round has arrived.
-/
namespace P4Benchmarks.P4xos.Learner
open Lib
structure Registers where
  registerRound : Register instanceCount 16
  registerValue : Register instanceCount 256
  registerHistory2B : Register instanceCount 8

structure Metadata where
  round : BitVec 16
  setDrop : BitVec 1
  ackAcceptors : BitVec 8

abbrev Transport := BitVec 1 → Option (BitVec 4 × BitVec 16)

def boot : Registers where
  registerRound := .filled 0
  registerValue := .filled 0
  registerHistory2B := .filled 0
variable (junk : Unspecified) (regs : Registers) (p : Paxos)
def readRound : Metadata where
  round := regs.registerRound.read junk p.inst.toNat
  setDrop := 1
  ackAcceptors := regs.registerHistory2B.read junk p.inst.toNat

def acptidBit : BitVec 8 := 1#8<<<(p.acptid.truncate 8).toNat

def handle2b (m : Metadata) : Registers × Metadata :=
  let m := { m with ackAcceptors := m.ackAcceptors|||acptidBit p }
  ({ registerRound := regs.registerRound.write p.inst.toNat p.rnd
     registerValue := regs.registerValue.write p.inst.toNat p.paxosval
     registerHistory2B := regs.registerHistory2B.write p.inst.toNat m.ackAcceptors },m)

def handleNewValue : Registers where
  registerRound := regs.registerRound.write p.inst.toNat p.rnd
  registerValue := regs.registerValue.write p.inst.toNat p.paxosval
  registerHistory2B := regs.registerHistory2B.write p.inst.toNat (acptidBit p)

/-- The test before `transport_tbl.apply()`: exactly two of the three bits are set. -/
def isQuorum (ackAcceptors : BitVec 8) : Bool := ackAcceptors==6 || ackAcceptors==5 || ackAcceptors==3

def forward (e : BitVec 4 × BitVec 16) (hdr : Headers) (std : StandardMetadata) : Headers × StandardMetadata :=
  ({ hdr with udp := hdr.udp.map fun _ => { dstPort := e.2 } }, { std with egressSpec := e.1.zeroExtend 9 })

def transportTbl (tbl : Transport) (m : Metadata) (hdr : Headers) (std : StandardMetadata) :
    Headers × StandardMetadata :=
  match tbl m.setDrop with
  | some e => forward e hdr std
  | none => (hdr,markToDrop std)

/-- Registers and metadata after the two round tests of the `apply` block.  Both tables there
have one action, which is also their default.  A packet of an older round changes nothing. -/
def recordVote : Registers × Metadata :=
  let m := readRound junk regs p
  if p.rnd > m.round then (handleNewValue regs p,m)
  else if p.rnd=m.round then handle2b regs p m
  else (regs,m)

structure Result where
  regs : Registers
  hdr : Headers
  std : StandardMetadata
  delivers : Bool

def ingress (tbl : Transport) (regs : Registers) (hdr : Headers) (std : StandardMetadata) : Result :=
  match hdr.ipv4, hdr.paxos with
  | some _, some p =>
    let (regs,m) := recordVote junk regs p
    if isQuorum m.ackAcceptors then
      let (hdr,std) := transportTbl tbl m hdr std
      { regs, hdr, std, delivers := true }
    else { regs, hdr, std, delivers := false }
  | _, _ => { regs, hdr, std, delivers := false }
end P4Benchmarks.P4xos.Learner
