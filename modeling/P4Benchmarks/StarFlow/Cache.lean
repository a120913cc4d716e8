import Mathlib.Algebra.GroupWithZero.Nat
import P4Benchmarks.Lib.Execution
/-!
# The StarFlow cache

A slot of an LRU chain holds up to `partition1Width` packet records, and `partition2Width` more once
it owns a long vector.  `dump` is off, as the source sets it.
-/
namespace P4Benchmarks.StarFlow
open Function
structure Key where
  (src dst : BitVec 32)
  (source dest : BitVec 16)
  proto : BitVec 8
  deriving DecidableEq

def Key.zero : Key := ⟨0,0,0,0,0⟩

structure PacketFeatures where
  (queueSize byteCt : BitVec 16)
  ts : Nat
  deriving DecidableEq

structure PacketRecord where
  key : Key
  thFlags : BitVec 8
  features : PacketFeatures
  deriving DecidableEq

def PacketFeatures.word (f : PacketFeatures) : Nat := f.queueSize.toNat+2^16*f.byteCt.toNat

def mclfrMaxlen : Nat := 32

structure Mclfr where
  inUse : Bool
  (lastAccessTs firstAccessTs : Nat)
  key : Key
  thFlags : BitVec 8
  pktCt : Nat
  allocAttempt : Bool
  packetVector : Nat → PacketFeatures
  longVectorIdx : Nat
namespace Mclfr
def cleared : Mclfr where
  inUse := false
  lastAccessTs := 0
  firstAccessTs := 0
  key := .zero
  thFlags := 0
  pktCt := 0
  allocAttempt := false
  packetVector := fun _ => ⟨0,0,0⟩
  longVectorIdx := 0
variable (m : Mclfr) (pr : PacketRecord) (curTs : Nat)
/-- The entry after the last one of `packetVector` lies on `longVectorIdx`.  Those after it are
outside the slot; there is none if `partition1Width+partition2Width` is at most 33. -/
def appendRecord : Mclfr :=
  { m with
    packetVector := update m.packetVector m.pktCt pr.features
    thFlags := m.thFlags|||pr.thFlags
    lastAccessTs := curTs
    longVectorIdx := if m.pktCt = mclfrMaxlen then pr.features.word else m.longVectorIdx }

def initMfr : Mclfr :=
  { appendRecord { m with firstAccessTs := curTs, key := pr.key, pktCt := 0 } pr curTs with
    inUse := true
    allocAttempt := false
    longVectorIdx := 0 }

/-- The copy that leaves the cache: `pktCt` is the index of the last packet in a slot, and the
number of packets in a copy. -/
def evicted : Mclfr := { m with pktCt := m.pktCt+1 }
def released : Mclfr := { m with longVectorIdx := 0, inUse := false }
def records : List PacketFeatures := (List.range m.pktCt).map m.packetVector
end Mclfr

/-- The command line of the program, within the limits its tables need.  `hash` is the second word
of the 128-bit hash of a key, `unset` is what the position of the oldest slot holds at the `n`-th
packet if the scan does not set it, and `beyond` is the memory after a chain. -/
structure Params where
  (trainingTime lruChainLen partition1Len partition1Width partition2Len partition2Width : Nat)
  hash : Key → Nat
  unset : Nat → Nat
  beyond : Nat → Mclfr
  one_le_lruChainLen : 1≤lruChainLen
  lruChainLen_le : lruChainLen≤partition1Len
  one_le_partition1Width : 1≤partition1Width
  one_le_partition2Len : 1≤partition2Len

def Params.width (p : Params) (m : Mclfr) : Nat :=
  if m.longVectorIdx=0 then p.partition1Width else p.partition1Width+p.partition2Width
namespace Params
def htLen (p : Params) : Nat := p.partition1Len/p.lruChainLen
def hashVal (p : Params) (key : Key) : Nat := p.hash key%p.htLen
end Params

structure Cache where
  chains : Nat → Nat → Mclfr
  longVectorStack : Nat → Nat
  (stackTop globalPktCt globalMfCt startTs curTs : Nat)
  exported : List Mclfr

inductive SlotType where
  | slotMatch
  | slotFree
  | slotEvict
  deriving DecidableEq

/-- The local variables of the scan of a chain; the positions are unset at first. -/
structure Scan where
  (freePos oldestPos : Option Nat)
  oldestTs : Nat

def Scan.visit (chain : Nat → Mclfr) (c : Scan) (cPos : Nat) : Scan where
  freePos := if c.freePos=none ∧ (chain cPos).inUse=false then some cPos else c.freePos
  oldestPos := if (chain cPos).lastAccessTs < c.oldestTs then some cPos else c.oldestPos
  oldestTs := if (chain cPos).lastAccessTs < c.oldestTs then (chain cPos).lastAccessTs
    else c.oldestTs

def scanChain (chain : Nat → Mclfr) (key : Key) : List Nat → Scan → Option Nat × Scan
  | [], c => (none,c)
  | cPos::rest, c =>
    if (chain cPos).key=key then (some cPos,c) else scanChain chain key rest (c.visit chain cPos)

/-- The slot for a key; `oldestPos` is returned also if it was never set. -/
def getSlotId (p : Params) (chain : Nat → Mclfr) (key : Key) (curTs unset : Nat) : SlotType × Nat :=
  match scanChain chain key (List.range p.lruChainLen) ⟨none,none,(curTs+1)%2^64⟩ with
  | (some cPos,_) => (.slotMatch,cPos)
  | (none,c) =>
    match c.freePos with
    | some cPos => (.slotFree,cPos)
    | none => (.slotEvict,c.oldestPos.getD unset)

namespace Cache
variable (p : Params)
def initTables : Cache where
  chains := fun _ _ => .cleared
  longVectorStack := fun i => if i<p.partition2Len then i else 0
  stackTop := p.partition2Len-1
  globalPktCt := 0
  globalMfCt := 0
  startTs := 0
  curTs := 0
  exported := []
variable (s : Cache) (h j : Nat)
def setSlot (m : Mclfr) : Cache := { s with chains := update s.chains h (update (s.chains h) j m) }

def exportMfr (evictedMFR : Mclfr) : Cache :=
  { s with globalMfCt := s.globalMfCt+1, exported := s.exported++[evictedMFR] }

def initMfr (s : Cache) (h j : Nat) (pr : PacketRecord) : Cache :=
  s.setSlot h j ((s.chains h j).initMfr pr s.curTs)

def freeLongPointer (longVectorIdx : Nat) : Cache :=
  if longVectorIdx=0 then s
  else { s with
    stackTop := s.stackTop+1
    longVectorStack := update s.longVectorStack (s.stackTop+1) longVectorIdx }

def evictMfr : Cache := (s.freeLongPointer (s.chains h j).longVectorIdx).setSlot h j (s.chains h j).released

def allocLongPointer : Cache :=
  if (s.chains h j).allocAttempt=false ∧ (s.chains h j).pktCt+1=p.partition1Width then
    if s.stackTop > 0 then
      { s.setSlot h j { s.chains h j with
          allocAttempt := true, longVectorIdx := s.longVectorStack s.stackTop } with
        stackTop := s.stackTop-1 }
    else s.setSlot h j { s.chains h j with allocAttempt := true, longVectorIdx := 0 }
  else s

def appendRecord (s : Cache) (h j : Nat) (pr : PacketRecord) : Cache :=
  s.setSlot h j ((s.chains h j).appendRecord pr s.curTs)

def append (width : Nat) (s : Cache) (h j : Nat) (pr : PacketRecord) : Cache :=
  if ((s.chains h j).pktCt+1)%width = 0 then
    ((s.setSlot h j { s.chains h j with pktCt := 0 }).exportMfr (s.chains h j).evicted).appendRecord h j pr
  else (s.setSlot h j { s.chains h j with pktCt := (s.chains h j).pktCt+1 }).appendRecord h j pr

def shortAppend : Cache → Nat → Nat → PacketRecord → Cache := append p.partition1Width

def longAppend : Cache → Nat → Nat → PacketRecord → Cache := append (p.partition1Width+p.partition2Width)
variable (pr : PacketRecord)

def appendMatch : Cache :=
  if (s.chains h j).longVectorIdx = 0 then s.shortAppend p h j pr else s.longAppend p h j pr

/-- The switch of `handlePacket`.  An eviction after the end of the chain frees the long vector that
the memory there names. -/
def pipeline : Cache :=
  let h := p.hashVal pr.key
  match getSlotId p (s.chains h) pr.key s.curTs (p.unset s.globalPktCt) with
  | (.slotFree,j) => s.initMfr h j pr
  | (.slotEvict,j) =>
    if j < p.lruChainLen then ((s.evictMfr h j).initMfr h j pr).exportMfr (s.chains h j).evicted
    else (s.freeLongPointer (p.beyond j).longVectorIdx).exportMfr (p.beyond j).evicted
  | (.slotMatch,j) => (s.allocLongPointer p h j).appendMatch p h j pr

def printStats : Option Cache := if s.globalMfCt=0 then none else some s
def updateCt : Nat := 10000
def trainingOver : Prop := p.trainingTime > 0 ∧ s.curTs > p.trainingTime*1000%2^64
instance (p : Params) (s : Cache) : Decidable (s.trainingOver p) := inferInstanceAs (Decidable (_ ∧ _))

/-- One TCP or UDP packet; `none` when the program ends, by an exit or by a division by zero. -/
def handlePacket : Option Cache := do
  let t := { s with globalPktCt := s.globalPktCt+1 }.pipeline p pr
  let t ← if t.globalPktCt%updateCt=0 then t.printStats else some t
  if t.trainingOver p then none else some t

def flushSlot (ij : Nat × Nat) : Cache :=
  if (s.chains ij.1 ij.2).inUse then (s.evictMfr ij.1 ij.2).exportMfr (s.chains ij.1 ij.2).evicted
  else s

def slots : List (Nat × Nat) :=
  (List.range p.htLen).flatMap fun i => (List.range p.lruChainLen).map fun j => (i,j)

def finalFlush : Cache := (slots p).foldl flushSlot s
end Cache

structure IpPacket where
  (sec usec src dst : BitVec 32)
  proto : BitVec 8
  (source dest : BitVec 16)
  thFlags : BitVec 8
  len : BitVec 16
  deriving DecidableEq
namespace IpPacket
variable (pkt : IpPacket)
def getMicrosecondTs : Nat := pkt.sec.toNat*1000000+pkt.usec.toNat
def setKey : Key := ⟨pkt.src,pkt.dst,pkt.source,pkt.dest,pkt.proto⟩

def packetRecord (curTs : Nat) : Option PacketRecord :=
  if pkt.proto=6 then some ⟨pkt.setKey,pkt.thFlags,⟨1,pkt.len,curTs⟩⟩
  else if pkt.proto=17 then some ⟨pkt.setKey,0,⟨1,pkt.len,curTs⟩⟩
  else none

def startTs (pkt : IpPacket) (startTs : Nat) : Nat := if startTs=0 then pkt.getMicrosecondTs else startTs
def curTs (startTs : Nat) : Nat := (pkt.getMicrosecondTs+2^64-pkt.startTs startTs)%2^64
end IpPacket
namespace Cache
def arrive (s : Cache) (pkt : IpPacket) : Cache :=
  { s with startTs := pkt.startTs s.startTs, curTs := pkt.curTs s.startTs }

def packetHandler (p : Params) (s : Cache) (pkt : IpPacket) : Option Cache :=
  match pkt.packetRecord (pkt.curTs s.startTs) with
  | some pr => (s.arrive pkt).handlePacket p pr
  | none => some (s.arrive pkt)
end Cache
end P4Benchmarks.StarFlow
