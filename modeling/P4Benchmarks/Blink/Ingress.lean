import Mathlib.Algebra.GroupWithZero.Nat
import P4Benchmarks.Lib.Register
/-!
# The ingress control of Blink

For each prefix, the flow selector follows up to 64 flows, one in a cell, and a ring of ten bins counts the
cells whose flow retransmitted recently.  Above the threshold the prefix is rerouted; within the next second
the flows probe both backup next hops.  Times are in units of 1024 microseconds.
-/
namespace P4Benchmarks.Blink
open Lib
abbrev Prefix := Fin 100
abbrev CellId := Fin 64

scoped instance neZero_hundred : NeZero 100 := ⟨by decide⟩

def swNbBins : Nat := 10
def swBinsDuration : BitVec 19 := ((80000 : BitVec 48)>>>10).setWidth 19
def flowselectorTimeout : BitVec 9 := 2
def timeoutProgression : BitVec 19 := ((1000000 : BitVec 48)>>>10).setWidth 19
def hash1Offset : BitVec 32 := 2134
def hash2Offset : BitVec 32 := 56097

structure Tcp where
  (srcPort dstPort : BitVec 16)
  seqNo : BitVec 32
  dataOffset : BitVec 4
  (syn fin : Bool)
  deriving DecidableEq

structure Packet where
  ingressPort : BitVec 9
  (ingressGlobalTimestamp ethSrcAddr : BitVec 48)
  ihl : BitVec 4
  totalLen : BitVec 16
  ttl : BitVec 8
  (srcAddr dstAddr : BitVec 32)
  tcp : Option Tcp
  deriving DecidableEq

structure Metadata where
  id : Prefix
  (useBlink isRetransmission : Bool)
  nextHopPort : BitVec 32
  tcpPayloadLen : BitVec 16
  ingressTimestampSecond : BitVec 9
  ingressTimestampMillisecond : BitVec 19
  flowselectorCellid : CellId
  selected : Bool
  bgpNghType : BitVec 2
  deriving DecidableEq

structure SetMeta where
  id : Prefix
  useBlink : Bool
  defaultNexthopPort : BitVec 32

/-- The tables, and what the target supplies: its hash unit and the values of reads outside a
register. -/
structure Config where
  bgpTag : BitVec 9 → BitVec 48 → BitVec 2
  metaFwtable : BitVec 32 → BitVec 2 → Option SetMeta
  crc32 : BitVec 32 → BitVec 32 → BitVec 16 → BitVec 16 → BitVec 32 → BitVec 32
  junk : Unspecified

structure Registers where
  (flowselectorKey flowselectorNep : Register 6400 32)
  flowselectorTs : Register 6400 9
  flowselectorLastRet : Register 6400 19
  flowselectorLastRetBin : Register 6400 4
  flowselectorCorrectness : Register 6400 1
  flowselectorFwloops : Register 6400 2
  sw : Register 1000 6
  swTime : Register 100 19
  swIndex : Register 100 4
  (swSum thresholdRegisters : Register 100 6)
  nextHopsPort : Register 300 32
  (nhAvaibility1 nhAvaibility2 nhAvaibility3 : Register 100 1)
  (nbflowsProgressing2 nbflowsProgressing3 : Register 100 6)
  reroutingTs : Register 100 19
  timestampReference : BitVec 48

def Registers.init (thresholds : Register 100 6) (nextHopsPort : Register 300 32) : Registers where
  flowselectorKey := .filled 0
  flowselectorNep := .filled 0
  flowselectorTs := .filled 0
  flowselectorLastRet := .filled 0
  flowselectorLastRetBin := .filled 0
  flowselectorCorrectness := .filled 0
  flowselectorFwloops := .filled 0
  sw := .filled 0
  swTime := .filled 0
  swIndex := .filled 0
  swSum := .filled 0
  thresholdRegisters := thresholds
  nextHopsPort := nextHopsPort
  nhAvaibility1 := .filled 0
  nhAvaibility2 := .filled 0
  nhAvaibility3 := .filled 0
  nbflowsProgressing2 := .filled 0
  nbflowsProgressing3 := .filled 0
  reroutingTs := .filled 0
  timestampReference := 0

def cellAt (id : Prefix) (c : CellId) : Fin 6400 := ⟨id*64+c,by omega⟩
def swAt (id : Prefix) (i : BitVec 4) : Nat := id*swNbBins+i.toNat

structure Sliding where
  sw : Register 1000 6
  lastSwTime : BitVec 19
  curSwIndex : BitVec 4
  curSwSum : BitVec 6

def nextIndex (i : BitVec 4) : BitVec 4 := if 10 ≤ i+1 then 0 else i+1

def Sliding.shiftOne (junk : Unspecified) (id : Prefix) (l : Sliding) : Sliding where
  sw := l.sw.write (swAt id (nextIndex l.curSwIndex)) 0
  lastSwTime := l.lastSwTime+swBinsDuration
  curSwIndex := nextIndex l.curSwIndex
  curSwSum := l.curSwSum-l.sw.read junk (swAt id (nextIndex l.curSwIndex))

def Sliding.shift (junk : Unspecified) (id : Prefix) : Nat → Sliding → Sliding
  | 0, l => l
  | n+1, l => Sliding.shift junk id n (l.shiftOne junk id)

def shiftOf (gap : BitVec 19) : Nat :=
  if gap < swBinsDuration then 0
  else if gap<2*swBinsDuration then 1
  else if gap<3*swBinsDuration then 2
  else if gap<4*swBinsDuration then 3
  else if gap<5*swBinsDuration then 4
  else 5
namespace Registers
variable (cfg : Config) (s : Registers) (id : Prefix) (c : CellId) (t : BitVec 19)
def reset : Registers :=
  { s with
    swTime := s.swTime.write id t
    swIndex := s.swIndex.write id 0
    swSum := s.swSum.write id 0
    sw := (List.range swNbBins).foldl (fun sw i => sw.write (id*swNbBins+i) 0) s.sw }

def sliding : Sliding := ⟨s.sw,s.swTime id,s.swIndex id,s.swSum id⟩

def store (l : Sliding) : Registers :=
  { s with
    sw := l.sw
    swTime := s.swTime.write id l.lastSwTime
    swIndex := s.swIndex.write id l.curSwIndex
    swSum := s.swSum.write id l.curSwSum }

def catchUp : Registers :=
  if swBinsDuration<t-s.swTime id then s.store id ((s.sliding id).shift cfg.junk id (shiftOf (t-s.swTime id)))
  else s

def slidingWindow : Registers := (if swBinsDuration*10<t-s.swTime id then s.reset id t else s).catchUp cfg id t

def InWindow : Prop :=
  (t-s.flowselectorLastRet (cellAt id c)).setWidth 48 < ((10-1)*swBinsDuration+(t-s.swTime id)).setWidth 48 ∧
    0 < s.flowselectorLastRet (cellAt id c)

instance : Decidable (s.InWindow id c t) := inferInstanceAs (Decidable (_ ∧ _))

def takeBack : Registers :=
  if s.InWindow id c t then
    { s with
      sw := s.sw.write (swAt id (s.flowselectorLastRetBin (cellAt id c)))
        (s.sw.read cfg.junk (swAt id (s.flowselectorLastRetBin (cellAt id c)))-1)
      swSum := s.swSum.write id (s.swSum id-1) }
  else s

def record : Registers :=
  { s with
    sw := s.sw.write (swAt id (s.swIndex id)) (s.sw.read cfg.junk (swAt id (s.swIndex id))+1)
    swSum := s.swSum.write id (s.swSum id+1)
    flowselectorLastRet := s.flowselectorLastRet.write (cellAt id c) t
    flowselectorLastRetBin := s.flowselectorLastRetBin.write (cellAt id c) (s.swIndex id) }

def occupy (key nep : BitVec 32) (ts : BitVec 9) : Registers :=
  { s with
    flowselectorKey := s.flowselectorKey.write (cellAt id c) key
    flowselectorNep := s.flowselectorNep.write (cellAt id c) nep
    flowselectorTs := s.flowselectorTs.write (cellAt id c) ts
    flowselectorLastRet := s.flowselectorLastRet.write (cellAt id c) 0
    flowselectorCorrectness := s.flowselectorCorrectness.write (cellAt id c) 0
    flowselectorFwloops := s.flowselectorFwloops.write (cellAt id c) 0 }

def progress : Registers :=
  if 0 < s.reroutingTs id ∧ t-s.reroutingTs id<timeoutProgression then
    { s with
      nbflowsProgressing2 :=
        if s.flowselectorCorrectness (cellAt id c)=0 ∧ c.val<32 then
          s.nbflowsProgressing2.write id (s.nbflowsProgressing2 id+1)
        else s.nbflowsProgressing2
      nbflowsProgressing3 :=
        if s.flowselectorCorrectness (cellAt id c)=0 ∧ 32 ≤ c.val then
          s.nbflowsProgressing3.write id (s.nbflowsProgressing3 id+1)
        else s.nbflowsProgressing3
      flowselectorCorrectness := s.flowselectorCorrectness.write (cellAt id c) 1 }
  else s

def touch (nep : BitVec 32) (ts : BitVec 9) : Registers :=
  { s with
    flowselectorTs := s.flowselectorTs.write (cellAt id c) ts
    flowselectorNep := s.flowselectorNep.write (cellAt id c) nep }
end Registers

inductive CellEvent where
  | finish
  | retransmission
  | progress
  | enter
  | evict
  | ignore
  deriving DecidableEq
variable (cfg : Config)
def newflowKey (p : Packet) (tcp : Tcp) : BitVec 32 :=
  .ofNat 32 ((cfg.crc32 p.srcAddr p.dstAddr tcp.srcPort tcp.dstPort hash1Offset).toNat%(2^32-1))+1

def cellId (p : Packet) (tcp : Tcp) : CellId :=
  ⟨(cfg.crc32 p.srcAddr p.dstAddr tcp.srcPort tcp.dstPort hash2Offset).toNat%64,Nat.mod_lt _ (by decide)⟩

def Metadata.nep (m : Metadata) (tcp : Tcp) : BitVec 32 := tcp.seqNo+m.tcpPayloadLen.setWidth 32
variable (s : Registers) (m : Metadata)
def cellEvent (p : Packet) (tcp : Tcp) : CellEvent :=
  let cell := cellAt m.id (cellId cfg p tcp)
  if s.flowselectorKey cell=newflowKey cfg p tcp ∧ s.flowselectorTs cell ≤ m.ingressTimestampSecond then
    if tcp.fin then .finish
    else if s.flowselectorNep cell=m.nep tcp then .retransmission
    else .progress
  else if (s.flowselectorKey cell=0 ∨ flowselectorTimeout < m.ingressTimestampSecond-s.flowselectorTs cell ∨
      m.ingressTimestampSecond < s.flowselectorTs cell) ∧ tcp.fin=false then
    if 0 < s.flowselectorKey cell then .evict else .enter
  else .ignore

def Registers.meet (c : CellId) (key nep : BitVec 32) : CellEvent → Registers
  | .finish => (s.takeBack cfg m.id c m.ingressTimestampMillisecond).occupy m.id c 0 0 0
  | .retransmission =>
    ((s.takeBack cfg m.id c m.ingressTimestampMillisecond).record cfg m.id c
      m.ingressTimestampMillisecond).touch m.id c nep m.ingressTimestampSecond
  | .progress => (s.progress m.id c m.ingressTimestampMillisecond).touch m.id c nep m.ingressTimestampSecond
  | .enter => s.occupy m.id c key nep m.ingressTimestampSecond
  | .evict =>
    (s.takeBack cfg m.id c m.ingressTimestampMillisecond).occupy m.id c key nep m.ingressTimestampSecond
  | .ignore => s

def flowselector (p : Packet) (tcp : Tcp) : Registers × Metadata :=
  let s' := s.slidingWindow cfg m.id m.ingressTimestampMillisecond
  let event := cellEvent cfg s' m p tcp
  (s'.meet cfg m (cellId cfg p tcp) (newflowKey cfg p tcp) (m.nep tcp) event,
    { m with
      flowselectorCellid := cellId cfg p tcp
      selected := decide (event≠.ignore)
      isRetransmission := decide (event=.retransmission) })

def maxFlowsSelectionTime : BitVec 48 := 500000000
def fwloopsTrigger : BitVec 2 := 3
namespace Registers
variable (s : Registers)
def refresh (now : BitVec 48) : Registers :=
  if maxFlowsSelectionTime<now-s.timestampReference then { s with timestampReference := now }
  else s
variable (m : Metadata)
def trigger : Registers :=
  if s.thresholdRegisters m.id < s.swSum m.id ∧ s.nhAvaibility1 m.id=0 then
    { s with
      nhAvaibility1 := s.nhAvaibility1.write m.id 1
      nbflowsProgressing2 := s.nbflowsProgressing2.write m.id 0
      nbflowsProgressing3 := s.nbflowsProgressing3.write m.id 0
      reroutingTs := s.reroutingTs.write m.id m.ingressTimestampMillisecond }
  else s

def hop (id : Prefix) (i : Fin 3) : BitVec 32 := s.nextHopsPort ⟨id*3+i,by omega⟩

def looping : Bool :=
  m.isRetransmission&&s.flowselectorFwloops (cellAt m.id m.flowselectorCellid)==fwloopsTrigger

def countLoop : Registers :=
  if m.isRetransmission ∧ s.looping m=false then
    { s with
      flowselectorFwloops := s.flowselectorFwloops.write (cellAt m.id m.flowselectorCellid)
        (s.flowselectorFwloops (cellAt m.id m.flowselectorCellid)+1) }
  else s

def probeFirst : Registers × BitVec 32 :=
  if s.nhAvaibility2 m.id=0 then
    (if s.looping m then { s with nhAvaibility2 := s.nhAvaibility2.write m.id 1 }
      else s.countLoop m,s.hop m.id 1)
  else if s.nhAvaibility3 m.id=0 then (s,s.hop m.id 2)
  else (s,s.hop m.id 0)

def probeSecond : Registers × BitVec 32 :=
  if s.nhAvaibility3 m.id=0 then
    (if s.looping m then { s with nhAvaibility3 := s.nhAvaibility3.write m.id 1 }
      else s.countLoop m,s.hop m.id 2)
  else if s.nhAvaibility2 m.id=0 then (s,s.hop m.id 1)
  else (s,s.hop m.id 0)

def preferredHop (id : Prefix) : BitVec 32 :=
  if s.nhAvaibility1 id=0 then s.hop id 0
  else if s.nhAvaibility2 id=0 then s.hop id 1
  else if s.nhAvaibility3 id=0 then s.hop id 2
  else s.hop id 0

def route : Registers × BitVec 32 :=
  if m.selected ∧ 0 < s.reroutingTs m.id ∧ m.ingressTimestampMillisecond-s.reroutingTs m.id<timeoutProgression then
    if m.flowselectorCellid.val<32 then s.probeFirst m else s.probeSecond m
  else (s,s.preferredHop m.id)

def judge : Registers :=
  if 0 < s.reroutingTs m.id ∧ timeoutProgression < m.ingressTimestampMillisecond-s.reroutingTs m.id then
    { s with
      nhAvaibility2 :=
        if s.nbflowsProgressing2 m.id < s.thresholdRegisters m.id>>>1 ∧ s.nhAvaibility2 m.id=0
        then s.nhAvaibility2.write m.id 1 else s.nhAvaibility2
      nhAvaibility3 :=
        if s.nbflowsProgressing3 m.id < s.thresholdRegisters m.id>>>1 ∧ s.nhAvaibility3 m.id=0
        then s.nhAvaibility3.write m.id 1 else s.nhAvaibility3 }
  else s
end Registers
variable (cfg : Config)
def setMeta (p : Packet) : Option SetMeta := cfg.metaFwtable p.dstAddr (cfg.bgpTag p.ingressPort p.ethSrcAddr)
variable (s : Registers) (p : Packet)
/-- The metadata after `bgp_tag` and `meta_fwtable`. A packet without a route keeps prefix 0. -/
def tag : Metadata where
  id := ((setMeta cfg p).map SetMeta.id).getD 0
  useBlink := ((setMeta cfg p).map SetMeta.useBlink).getD false
  isRetransmission := false
  nextHopPort := ((setMeta cfg p).map SetMeta.defaultNexthopPort).getD 0
  tcpPayloadLen := 0
  ingressTimestampSecond := ((p.ingressGlobalTimestamp-s.timestampReference)>>>20).setWidth 9
  ingressTimestampMillisecond := ((p.ingressGlobalTimestamp-s.timestampReference)>>>10).setWidth 19
  flowselectorCellid := 0
  selected := false
  bgpNghType := cfg.bgpTag p.ingressPort p.ethSrcAddr

def payloadLen (tcp : Tcp) : BitVec 16 :=
  if tcp.syn ∨ tcp.fin then 1
  else p.totalLen-p.ihl.setWidth 16*4-tcp.dataOffset.setWidth 16*4

def monitor (m : Metadata) (p : Packet) : Registers × Metadata :=
  match p.tcp with
  | none => (s,m)
  | some tcp =>
    if m.useBlink then
      if 0<payloadLen p tcp then
        let r := flowselector cfg s { m with tcpPayloadLen := payloadLen p tcp } p tcp
        (r.1.trigger r.2,r.2)
      else (s,{ m with tcpPayloadLen := payloadLen p tcp })
    else (s,m)

def forward (m : Metadata) : Registers × Metadata :=
  if m.useBlink then ((s.route m).1.judge m,{ m with nextHopPort := (s.route m).2 })
  else (s,m)

/-- `ingress`. A TCP packet whose TTL ends here is answered and leaves the other registers alone. -/
def ingress : Registers × Metadata :=
  let s₁ := s.refresh p.ingressGlobalTimestamp
  if p.tcp.isSome ∧ p.ttl=1 then (s₁,tag cfg s₁ p)
  else
    let r := monitor cfg s₁ (tag cfg s₁ p) p
    forward r.1 r.2
end P4Benchmarks.Blink
