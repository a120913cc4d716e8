import P4Benchmarks.Lib.Register
/-!
# The AquaFlow decoder

The decoding part of `aqua_flow_template.p4` with the entries of `diversity/s5-commands.txt`.  The
stack of switch statistics is left out.
-/
namespace P4Benchmarks.AquaFlow
open Lib
def codingA : BitVec 8 := 0x41
def codingB : BitVec 8 := 0x42
def codingX : BitVec 8 := 0x58
def decodingBufferSize : Nat := 1024
def dropPort : BitVec 9 := 511

structure CodingHdr (w : Nat) where
  (streamId packetContents : BitVec 8)
  codedPacketsBatchNum : BitVec 32
  packetPayload : BitVec w
deriving DecidableEq

structure DecodingMetadata where
  isClone : BitVec 8
  (batchIdx perBatchInputPacketNum perBatchCodedReceived : BitVec 32)
deriving DecidableEq

structure Packet (w : Nat) where
  hdr : CodingHdr w
  decoding : DecodingMetadata
  egressSpec : BitVec 9
deriving DecidableEq

def Packet.arriving {w : Nat} (hdr : CodingHdr w) : Packet w := ⟨hdr,⟨0,0,0,0⟩,0⟩

structure Registers (w : Nat) where
  (regPayloadDecodingBufferUncoded regPayloadDecodingBufferCoded : Register decodingBufferSize w)
  (regUncodedIndex regCodedIndex : Register 1 32)
  (regPerBatchInputPacketNum regRcvBatchNumPerIndex : Register decodingBufferSize 32)

def Registers.zero (w : Nat) : Registers w := ⟨.filled 0,.filled 0,.filled 0,.filled 0,.filled 0,.filled 0⟩

inductive GatheringAction where
  | nop
  | copyUncoded
  | copyCoded
deriving DecidableEq

inductive DecodeAction where
  | nop
  | drop
  | uniCast (egressPort : BitVec 9)
  | cloneUniCast (egressPort : BitVec 9)
  | decodeUsingRegister (egressPort : BitVec 9)
  | decodeUsingCloned (egressPort : BitVec 9)
deriving DecidableEq

inductive EgressDecodeAction where
  | recirculateStep
  | forward (swid : BitVec 32)
  | forwardClone (swid : BitVec 32)
deriving DecidableEq

structure Entries where
  tableInputGathering : List ((BitVec 8 × BitVec 8 × BitVec 8 × BitVec 32) × GatheringAction)
  tableIngressDecode : List ((BitVec 8 × BitVec 8 × BitVec 8 × BitVec 32 × BitVec 32) × DecodeAction)
  tableEgressDecode : List ((BitVec 8 × BitVec 8) × EgressDecodeAction)
  mirroring : List (Nat × BitVec 9)

def s5Commands : Entries where
  tableInputGathering := [((1,0,65,1),.copyUncoded),((1,0,66,1),.copyUncoded),((1,0,88,1),.copyCoded)]
  tableIngressDecode :=
    [((1,0,65,1,0),.uniCast 1),((1,0,65,2,0),.uniCast 1),((1,0,65,2,1),.cloneUniCast 1),((1,0,66,1,0),.uniCast 1),
      ((1,0,66,2,0),.uniCast 1),
      ((1,0,66,2,1),.cloneUniCast 1),
      ((1,0,88,2,0),.decodeUsingRegister 1),
      ((1,1,65,2,1),.decodeUsingCloned 1),
      ((1,1,66,2,1),.decodeUsingCloned 1)]
  tableEgressDecode := [((1,0),.forward 5),((1,2),.forwardClone 5),((1,1),.recirculateStep)]
  mirroring := [(450,1)]
variable {w : Nat} (junk : Unspecified) (regs : Registers w) (p : Packet w)
def copyUncoded : Registers w :=
  { regs with
    regPayloadDecodingBufferUncoded :=
      regs.regPayloadDecodingBufferUncoded.write p.decoding.batchIdx.toNat p.hdr.packetPayload
    regUncodedIndex := regs.regUncodedIndex.write 0 p.decoding.batchIdx }

def copyCoded : Registers w :=
  { regs with
    regPayloadDecodingBufferCoded :=
      regs.regPayloadDecodingBufferCoded.write p.decoding.batchIdx.toNat p.hdr.packetPayload
    regCodedIndex := regs.regCodedIndex.write 0 p.decoding.batchIdx }

def tableInputGathering (entries : Entries) (regs : Registers w) (p : Packet w) : Registers w :=
  match entries.tableInputGathering.lookup
    (p.hdr.streamId,p.decoding.isClone,p.hdr.packetContents,p.decoding.perBatchInputPacketNum) with
  | some .copyUncoded => copyUncoded regs p
  | some .copyCoded => copyCoded regs p
  | some .nop => regs
  | none => regs

def drop : Packet w := { p with egressSpec := dropPort }
variable (egressPort : BitVec 9) (p : Packet w)
def uniCast : Packet w := { p with egressSpec := egressPort }
def cloneUniCast : Packet w := uniCast egressPort { p with decoding := { p.decoding with isClone := 2 } }

def decodeUsingRegister : Packet w :=
  let uncodedPayload := regs.regPayloadDecodingBufferUncoded.read junk p.decoding.batchIdx.toNat
  uniCast egressPort
    { p with hdr := { p.hdr with packetPayload := p.hdr.packetPayload^^^uncodedPayload } }

def decodeUsingCloned : Packet w :=
  let codedPayload := regs.regPayloadDecodingBufferCoded.read junk p.decoding.batchIdx.toNat
  uniCast egressPort
    { p with
      hdr := { p.hdr with
        packetPayload := p.hdr.packetPayload^^^codedPayload
        packetContents := codingX }
      decoding := { p.decoding with isClone := 0 } }

def tableIngressDecode (entries : Entries) (regs : Registers w) (p : Packet w) : Packet w :=
  match entries.tableIngressDecode.lookup
    (p.hdr.streamId,p.decoding.isClone,p.hdr.packetContents,
      p.decoding.perBatchInputPacketNum,p.decoding.perBatchCodedReceived) with
  | some .nop => p
  | some .drop => drop p
  | some (.uniCast port) => uniCast port p
  | some (.cloneUniCast port) => cloneUniCast port p
  | some (.decodeUsingRegister port) => decodeUsingRegister junk regs port p
  | some (.decodeUsingCloned port) => decodeUsingCloned junk regs port p
  | none => drop p

def claimSlot : Registers w :=
  let rcvBatchNumPerIndex := regs.regRcvBatchNumPerIndex.read junk p.decoding.batchIdx.toNat
  if p.hdr.codedPacketsBatchNum≠rcvBatchNumPerIndex then
    { regs with
      regRcvBatchNumPerIndex :=
        regs.regRcvBatchNumPerIndex.write p.decoding.batchIdx.toNat p.hdr.codedPacketsBatchNum
      regPerBatchInputPacketNum := regs.regPerBatchInputPacketNum.write p.decoding.batchIdx.toNat 0 }
  else regs

def countInput : Registers w × Packet w :=
  if p.decoding.isClone=0 then
    let num := regs.regPerBatchInputPacketNum.read junk p.decoding.batchIdx.toNat+1
    ({ regs with
        regPerBatchInputPacketNum := regs.regPerBatchInputPacketNum.write p.decoding.batchIdx.toNat num },
      { p with decoding := { p.decoding with perBatchInputPacketNum := num } })
  else (regs,p)

def noteCoded : Packet w :=
  let codedIndex := regs.regCodedIndex.read junk 0
  if codedIndex ≥ p.decoding.batchIdx then { p with decoding := { p.decoding with perBatchCodedReceived := 1 } }
  else p
variable (entries : Entries) (regs : Registers w) (p : Packet w)
def codingIngress : Registers w × Packet w :=
  let p := { p with
    decoding := { p.decoding with
      batchIdx := p.hdr.codedPacketsBatchNum%.ofNat 32 decodingBufferSize } }
  let regs := claimSlot junk regs p
  let (regs,p) := countInput junk regs p
  let regs := tableInputGathering entries regs p
  let p := noteCoded junk regs p
  (regs,tableIngressDecode junk entries regs p)

inductive Work (w : Nat) where
  | ingress (p : Packet w)
  | egress (p : Packet w)
deriving DecidableEq

/-- `table_egress_decode` in `CodingEgress.apply`: the packets that stay in the switch and the
packet that is sent. -/
def codingEgress : List (Work w) × List (Packet w) :=
  match entries.tableEgressDecode.lookup (p.hdr.streamId,p.decoding.isClone) with
  | some .recirculateStep => ([.ingress p],[])
  | some (.forward _) => ([],[p])
  | some (.forwardClone _) =>
    let p := { p with decoding := { p.decoding with isClone := 1 } }
    match entries.mirroring.lookup 450 with
    | some port => ([.egress { p with egressSpec := port }],[p])
    | none => ([],[p])
  | none => ([],[p])

def pass : Work w → Registers w × List (Work w) × List (Packet w)
  | .ingress p =>
    let (regs,p) := codingIngress junk entries regs p
    if p.egressSpec=dropPort then (regs,[],[]) else (regs,[.egress p],[])
  | .egress p => (regs,codingEgress entries p)

def settle (entries : Entries) : Nat → Registers w → List (Work w) → Option (Registers w × List (Packet w))
  | _, regs, [] => some (regs,[])
  | 0, _, _::_ => none
  | fuel+1, regs, work::rest =>
    let (regs,more,sent) := pass junk entries regs work
    (settle entries fuel regs (more++rest)).map fun (regs,sent') => (regs,sent++sent')

def receive (entries : Entries) (fuel : Nat) : Registers w → List (CodingHdr w) → Option (Registers w × List (Packet w))
  | regs, [] => some (regs,[])
  | regs, hdr::hdrs => do
    let (regs,sent) ← settle junk entries fuel regs [.ingress (.arriving hdr)]
    let (regs,sent') ← receive entries fuel regs hdrs
    pure (regs,sent++sent')
end P4Benchmarks.AquaFlow
