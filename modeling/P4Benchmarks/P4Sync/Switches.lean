import P4Benchmarks.Lib.Register
import P4Benchmarks.Spine.Encryption
/-!
# P4Sync: migration of a register array

The source switch `s1.p4` counts TCP packets per flow and copies its counters into migration packets
that pass through it; the destination switch `s3.p4` builds up the counters from these packets.
-/
namespace P4Benchmarks.P4Sync
open Lib
open Spine (Words sipRound)
def registerSize : Nat := 1024
def tcpProtocol : BitVec 8 := 6
def migrationProtocol : BitVec 8 := 251
def signatureProtocol : BitVec 8 := 253

structure FlowKey where
  (srcAddr dstAddr : BitVec 32)
  (srcPort dstPort : BitVec 16)

structure Migration where
  (protocol stage : BitVec 8)
  index : BitVec 16
  state : BitVec 32
  mac : BitVec 64
  verify : BitVec 32
  (mainProg deltaProg : BitVec 16)

structure Signature where
  protocol : BitVec 8
  sign : BitVec 1024

/-- A packet with its headers. The fields of a header that the packet does not have may hold
anything. -/
structure Packet where
  ipv4Valid : Bool
  (ttl protocol : BitVec 8)
  totalLen : BitVec 16
  flow : FlowKey
  migration : Migration
  signatureValid : Bool
  signature : Signature

def Packet.valid (p : Packet) : Bool := p.ipv4Valid&&decide (0#8<p.ttl)
def key1 : BitVec 64 := 3597013258797167272
def key2 : BitVec 64 := 7987411727713180468

def sipHash (message0 message1 : BitVec 64) : BitVec 64 :=
  let w : Words := ⟨key1^^^Spine.const1,key2^^^Spine.const2,key1^^^Spine.const3,key2^^^Spine.const4⟩
  let w := sipRound { w with v3 := w.v3^^^message0 }
  let w := { w with v0 := w.v0^^^message0 }
  let w := sipRound { w with v3 := w.v3^^^message1 }
  let w := { w with v0 := w.v0^^^message1 }
  let w := sipRound { w with v2 := w.v2^^^0x00000000000000ff }
  (sipRound w).result

def Migration.message (m : Migration) : BitVec 64 :=
  (m.stage.setWidth 64<<<56)+(m.protocol.setWidth 64<<<48)+(m.index.setWidth 64<<<32) + m.state.setWidth 64

structure Source where
  (flowsize deltaflowsize : Register registerSize 32)
  stage : BitVec 8
  (mainprogress deltaprogress : BitVec 16)
  lastmac : BitVec 64
variable (crc16 : FlowKey → BitVec 16)
def flowIndex (k : FlowKey) : Nat := (crc16 k).toNat%registerSize
variable (junk : Unspecified)
def bump (r : Register registerSize 32) (i : Nat) : Register registerSize 32 := r.write i (r.read junk i+1)
variable (s : Source)
def Source.count (i : Nat) : Source :=
  if s.stage=1 then
    if s.mainprogress.toNat < i then { s with flowsize := bump junk s.flowsize i }
    else { s with deltaflowsize := bump junk s.deltaflowsize i }
  else if s.stage=2 then { s with flowsize := bump junk s.flowsize i }
  else s

def Source.load (m : Migration) : Source × Migration :=
  let s := { s with stage := m.stage }
  if m.stage=1 then
    ({ s with mainprogress := s.mainprogress+1 },
      { m with mainProg := s.mainprogress, state := s.flowsize.read junk m.index.toNat })
  else if m.stage=2 then
    ({ s with deltaprogress := s.deltaprogress+1 },
      { m with deltaProg := s.deltaprogress, state := s.deltaflowsize.read junk m.index.toNat })
  else (s,m)

def Packet.addSignature (p : Packet) : Packet :=
  { p with
    signatureValid := true
    signature := ⟨1,0⟩
    migration.protocol := signatureProtocol
    totalLen := p.totalLen+129 }

/-- The part that authenticates a loaded packet and sends it on: the last packet gets a signature
header and goes to the RSA sender on port 3, the others go to port 5. -/
def Source.sign (p : Packet) : Source × Packet × BitVec 9 :=
  let mac := sipHash s.lastmac p.migration.message
  let p := { p with migration.mac := mac }
  ({ s with lastmac := mac },if p.migration.stage=2 ∧ p.migration.index.toNat=registerSize-1 then (p.addSignature,3)
    else (p,5))

/-- `MyIngress` of `s1.p4`; no port means that the packet is dropped or keeps its default port. -/
def Source.ingress (junk : Unspecified) (s : Source)
    (port : BitVec 9) (p : Packet) : Source × Packet × Option (BitVec 9) :=
  if p.valid ∧ p.protocol=tcpProtocol then
    if port=1 then (s.count junk (flowIndex crc16 p.flow),p,some 4) else (s,p,none)
  else if p.valid ∧ p.protocol=migrationProtocol ∧ p.migration.protocol≠signatureProtocol then
    let r := s.load junk p.migration
    let r := r.1.sign { p with migration := r.2 }
    (r.1,r.2.1,some r.2.2)
  else if p.valid ∧ p.protocol=migrationProtocol ∧ p.migration.protocol=signatureProtocol then (s,p,some 5)
  else (s,p,none)

def rsaSender (rsaSign : Migration → BitVec 1024) (p : Packet) : Packet :=
  if p.signatureValid ∧ p.signature.protocol=1 then { p with signature := ⟨tcpProtocol,rsaSign p.migration⟩ }
  else p

structure Destination where
  flowsize : Register registerSize 32
  lastmac : BitVec 64

def Destination.store (s : Destination) (m : Migration) : Destination :=
  if m.stage=1 then { s with flowsize := s.flowsize.write m.index.toNat m.state }
  else if m.stage=2 then
    let originalVal := s.flowsize.read junk m.index.toNat
    { s with flowsize := s.flowsize.write m.index.toNat (originalVal+m.state) }
  else s

def Destination.ingress (s : Destination) (port : BitVec 9) (p : Packet) : Destination × Packet × Option (BitVec 9) :=
  if p.valid ∧ p.protocol=migrationProtocol ∧ p.migration.protocol≠signatureProtocol then
    if port=3 then
      let verified := p.migration.mac=sipHash s.lastmac p.migration.message
      ({ s.store junk p.migration with lastmac := p.migration.mac },
        { p with migration.verify := if verified then 1 else 0 },some 1)
    else (s,p,none)
  else if p.valid ∧ p.protocol=migrationProtocol ∧ p.migration.protocol=signatureProtocol then (s,p,some 2)
  else (s,p,none)
end P4Benchmarks.P4Sync
