import Mathlib.Algebra.GroupWithZero.Nat
import P4Benchmarks.Lib.Register
/-!
# An IntSight switch

`intsight.p4`.  Ethernet and ARP fields other than the types the parser branches on, the IPv4
checksum and the IPv4 header of report packets do not take part.
-/
namespace P4Benchmarks.IntSight
open Lib
def regwid : Nat := 100
def epochShift : Nat := 16
def inDelay : BitVec 32 := 20
def pnDelay : BitVec 32 := 110
def enDelay : BitVec 32 := 60
def protocolTelemetry : BitVec 8 := 223
def protocolReport : BitVec 8 := 224
def etherTypeArp : BitVec 16 := 0x0806
def etherTypeIpv4 : BitVec 16 := 0x0800
def dropPort : BitVec 9 := 511

structure Ipv4 where
  totalLength : BitVec 16
  (ttl protocol : BitVec 8)
  (srcAddr dstAddr : BitVec 32)
deriving DecidableEq

structure Telemetry where
  epoch : BitVec 32
  pathSrc : BitVec 10
  pathLength : BitVec 6
  pathCode : BitVec 16
  (contentionPoints suspicionPoints : BitVec 48)
  (e2eDelay ingressPackets ingressBytes : BitVec 32)
  nextHeader : BitVec 8
deriving DecidableEq

def telemetryHs : Nat := 33

structure Report where
  (epoch egressEpoch flowID : BitVec 32)
  pathSrc : BitVec 10
  pathLength : BitVec 6
  pathCode : BitVec 16
  (contentionPoints suspicionPoints : BitVec 48)
  pathDst : BitVec 16
  (highDelays drops ingressPackets ingressBytes egressPackets egressBytes : BitVec 32)
deriving DecidableEq

/-- The headers a packet has in the pipeline; `arp` says whether the ARP header is valid. -/
structure Headers where
  arp : Bool := false
  ipv4 : Option Ipv4 := none
  telemetry : Option Telemetry := none
  report : Option Report := none
deriving DecidableEq

/-- A packet on a link: its length and the fields the parser finds on its way, each meant only if
the parser gets there. -/
structure Frame where
  (etherType arpProtocolType : BitVec 16)
  ipv4 : Ipv4
  telemetry : Telemetry
  report : Report
  length : BitVec 32
deriving DecidableEq
variable (f : Frame)
def parseIpv4 (arp : Bool) : Headers :=
  if f.ipv4.protocol=protocolTelemetry then
    { arp, ipv4 := some f.ipv4, telemetry := some f.telemetry,
      report := if f.telemetry.nextHeader=protocolReport then some f.report else none }
  else if f.ipv4.protocol=protocolReport then { arp, ipv4 := some f.ipv4, report := some f.report }
  else { arp, ipv4 := some f.ipv4 }

def parse : Headers :=
  if f.etherType=etherTypeArp then if f.arpProtocolType=etherTypeIpv4 then parseIpv4 f true else { arp := true }
  else if f.etherType=etherTypeIpv4 then parseIpv4 f false
  else {}

def Headers.telemetryBytes (hdrs : Headers) : Nat := if hdrs.telemetry.isSome then telemetryHs else 0

def deparse (hdrs : Headers) : Frame :=
  { f with
    ipv4 := hdrs.ipv4.getD f.ipv4
    telemetry := hdrs.telemetry.getD f.telemetry
    report := hdrs.report.getD f.report
    length := f.length+.ofNat 32 hdrs.telemetryBytes - .ofNat 32 (parse f).telemetryBytes }

inductive LpmAction where
  | ipv4Forward (port : BitVec 9)
  | drop
  | noAction
deriving DecidableEq

structure Tables where
  ipv4Lpm : BitVec 32 → LpmAction
  flowID : BitVec 32 → BitVec 32 → Option (BitVec 32)
  nodeID : BitVec 10
  contentionThresholds : BitVec 9 → Option (BitVec 32 × BitVec 19)
  suspicionThresholds : BitVec 9 → Option (BitVec 32)
  updatePathID : BitVec 10 → BitVec 6 → BitVec 16 → BitVec 9 → Option (BitVec 16)
  (e2eDelayThreshold highDelaysThreshold : BitVec 32 → Option (BitVec 32))
  bandwidthThresholds : BitVec 32 → Option (BitVec 32 × BitVec 32)

structure Registers where
  iEpoch : Register regwid 32 := .filled 0
  iIngressPackets : Register regwid 32 := .filled 0
  iIngressBytes : Register regwid 32 := .filled 0
  eEpoch : Register regwid 32 := .filled 0
  eEgressEpoch : Register regwid 32 := .filled 0
  ePathSrc : Register regwid 10 := .filled 0
  ePathLength : Register regwid 6 := .filled 0
  ePathCode : Register regwid 16 := .filled 0
  eContentionPoints : Register regwid 48 := .filled 0
  eSuspicionPoints : Register regwid 48 := .filled 0
  eHighDelays : Register regwid 32 := .filled 0
  eIngressPackets : Register regwid 32 := .filled 0
  eIngressBytes : Register regwid 32 := .filled 0
  eEgressPackets : Register regwid 32 := .filled 0
  eEgressBytes : Register regwid 32 := .filled 0

/-- `custom_metadata_t`, without the fields that are only read where they were just set. -/
structure Metadata where
  isIngressNode : Bool := false
  isEgressNode : Bool := false
  flowID : BitVec 32 := 0
  nodeID : BitVec 10 := 0
  currentEpoch : BitVec 32 := 0
  iIngressPackets : BitVec 32 := 0
  iIngressBytes : BitVec 32 := 0
  eEpoch : BitVec 32 := 0
  eEgressEpoch : BitVec 32 := 0
  ePathSrc : BitVec 10 := 0
  ePathLength : BitVec 6 := 0
  ePathCode : BitVec 16 := 0
  eContentionPoints : BitVec 48 := 0
  eSuspicionPoints : BitVec 48 := 0
  eHighDelays : BitVec 32 := 0
  eDrops : BitVec 32 := 0
  eIngressPackets : BitVec 32 := 0
  eIngressBytes : BitVec 32 := 0
  eEgressPackets : BitVec 32 := 0
  eEgressBytes : BitVec 32 := 0
  eReport : Bool := false
deriving DecidableEq

/-- What a switch adds to a packet that passes it: the fields of the standard metadata, whether the
packet is lost in the queue of its port, and the values of reads outside the language. -/
structure Passage where
  ingressPort : BitVec 9
  ingressGlobalTimestamp : BitVec 48
  deqTimedelta : BitVec 32
  enqQdepth : BitVec 19
  lost : Bool
  junk : Unspecified

structure Routed where
  regs : Registers
  hdrs : Headers
  cmd : Metadata
  egressSpec : BitVec 9

def epochOf (timestamp : BitVec 48) : BitVec 32 := (timestamp>>>epochShift).setWidth 32
variable (t : Tables) (ip : Ipv4)
def ipv4LpmApply : Ipv4 × BitVec 9 :=
  match t.ipv4Lpm ip.dstAddr with
  | .ipv4Forward port => ({ ip with ttl := ip.ttl-1 },port)
  | .drop => (ip,dropPort)
  | .noAction => (ip,0)

def flowIDApply : BitVec 32 := (t.flowID ip.srcAddr ip.dstAddr).getD (.ofNat 32 (regwid-1))

def classify (a : Passage) (egressSpec : BitVec 9) : Metadata :=
  if a.ingressPort≤2 ∨ egressSpec≤2 then
    { isIngressNode := decide (a.ingressPort≤2)
      isEgressNode := decide (egressSpec≤2)
      nodeID := t.nodeID
      flowID := flowIDApply t ip
      currentEpoch := epochOf a.ingressGlobalTimestamp }
  else {}
variable (junk : Unspecified) (regs : Registers) (cmd : Metadata)
def countIngress (length : BitVec 32) : Registers × Metadata :=
  let flow := cmd.flowID.toNat
  let same := regs.iEpoch.read junk flow=cmd.currentEpoch
  let packets := if same then regs.iIngressPackets.read junk flow+1 else 1
  let bytes := if same then regs.iIngressBytes.read junk flow+length else length
  ({ regs with
      iEpoch := regs.iEpoch.write flow cmd.currentEpoch
      iIngressPackets := regs.iIngressPackets.write flow packets
      iIngressBytes := regs.iIngressBytes.write flow bytes },
    { cmd with iIngressPackets := packets, iIngressBytes := bytes })
variable (regs : Registers) (hdrs : Headers)
def ingress (a : Passage) (length : BitVec 32) : Routed :=
  match hdrs.ipv4 with
  | some ip =>
    let (ip',egressSpec) := ipv4LpmApply t ip
    let hdrs' := { hdrs with ipv4 := some ip' }
    if egressSpec≠0 ∧ hdrs.report.isNone then
      let cmd := classify t ip' a egressSpec
      if hdrs.telemetry.isNone ∧ cmd.isIngressNode then
        let (regs',cmd') := countIngress a.junk regs cmd length
        ⟨regs',hdrs',cmd',egressSpec⟩
      else ⟨regs,hdrs',cmd,egressSpec⟩
    else ⟨regs,hdrs',{},egressSpec⟩
  | none => ⟨regs,hdrs,{},if hdrs.arp then a.ingressPort else dropPort⟩
variable (cmd : Metadata)
/-- The ingress node adds a telemetry header.  `suspicion_points` is not set. -/
def createTelemetry (hdrs : Headers) : Headers :=
  { hdrs with
    telemetry := some
      { epoch := cmd.currentEpoch
        pathSrc := cmd.nodeID
        pathLength := 0
        pathCode := 0
        contentionPoints := 0
        suspicionPoints := junk 48
        e2eDelay := inDelay
        ingressPackets := cmd.iIngressPackets
        ingressBytes := cmd.iIngressBytes
        nextHeader := (hdrs.ipv4.map (·.protocol)).getD (junk 8) }
    ipv4 := hdrs.ipv4.map fun ip =>
      { ip with
        protocol := protocolTelemetry
        totalLength := ip.totalLength+.ofNat 16 telemetryHs } }

def onAllNodes (a : Passage) (port : BitVec 9) (tel : Telemetry) : Telemetry :=
  let qt := (t.contentionThresholds port).getD (0,0)
  let qtBitrate := (t.suspicionThresholds port).getD 0
  let point := (1 : BitVec 48)<<<tel.pathLength
  { tel with
    e2eDelay := tel.e2eDelay+pnDelay+a.deqTimedelta
    contentionPoints :=
      if qt.1≤a.deqTimedelta ∨ qt.2≤a.enqQdepth then tel.contentionPoints|||point
      else tel.contentionPoints
    suspicionPoints :=
      if qtBitrate≤tel.ingressBytes then tel.suspicionPoints|||point
      else tel.suspicionPoints
    pathCode := (t.updatePathID tel.pathSrc tel.pathLength tel.pathCode port).getD tel.pathCode
    pathLength := tel.pathLength+1 }

def highE2eDelay (flow : BitVec 32) (delay : BitVec 32) : Bool :=
  match t.e2eDelayThreshold flow with
  | some threshold => decide (threshold≤delay)
  | none => false
variable (cmd : Metadata)
def egressBytesThs : BitVec 32 := if cmd.isIngressNode then 0 else .ofNat 32 telemetryHs

def readFlow : Metadata :=
  let flow := cmd.flowID.toNat
  { cmd with
    eEpoch := regs.eEpoch.read junk flow
    eEgressEpoch := regs.eEgressEpoch.read junk flow
    ePathSrc := regs.ePathSrc.read junk flow
    ePathLength := regs.ePathLength.read junk flow
    ePathCode := regs.ePathCode.read junk flow
    eContentionPoints := regs.eContentionPoints.read junk flow
    eSuspicionPoints := regs.eSuspicionPoints.read junk flow
    eHighDelays := regs.eHighDelays.read junk flow
    eIngressPackets := regs.eIngressPackets.read junk flow
    eIngressBytes := regs.eIngressBytes.read junk flow
    eEgressPackets := regs.eEgressPackets.read junk flow
    eEgressBytes := regs.eEgressBytes.read junk flow }
variable (a : Passage) (length : BitVec 32) (tel : Telemetry)
/-- The egress node updates the registers of a flow by a packet with the telemetry header `tel`;
`cmd` holds the values read before. -/
def updateRegisters : Registers :=
  let flow := cmd.flowID.toNat
  let high := highE2eDelay t cmd.flowID tel.e2eDelay
  let newEpoch := tel.epoch≠cmd.eEpoch
  { regs with
    eEpoch := regs.eEpoch.write flow tel.epoch
    eEgressEpoch := regs.eEgressEpoch.write flow
      (epochOf (a.ingressGlobalTimestamp+a.deqTimedelta.setWidth 48+pnDelay.setWidth 48 + enDelay.setWidth 48))
    ePathSrc := regs.ePathSrc.write flow tel.pathSrc
    ePathLength := regs.ePathLength.write flow tel.pathLength
    ePathCode := regs.ePathCode.write flow tel.pathCode
    eHighDelays :=
      if newEpoch then regs.eHighDelays.write flow ((BitVec.ofBool high).setWidth 32)
      else if high then regs.eHighDelays.write flow (cmd.eHighDelays+1)
      else regs.eHighDelays
    eIngressPackets := regs.eIngressPackets.write flow tel.ingressPackets
    eIngressBytes := regs.eIngressBytes.write flow tel.ingressBytes
    eEgressPackets := regs.eEgressPackets.write flow (if newEpoch then 1 else cmd.eEgressPackets+1)
    eEgressBytes := regs.eEgressBytes.write flow (if newEpoch then length-egressBytesThs cmd
        else cmd.eEgressBytes+length-egressBytesThs cmd)
    eContentionPoints := regs.eContentionPoints.write flow (if newEpoch then tel.contentionPoints
        else cmd.eContentionPoints|||tel.contentionPoints)
    eSuspicionPoints := regs.eSuspicionPoints.write flow (if newEpoch then tel.suspicionPoints
        else cmd.eSuspicionPoints|||tel.suspicionPoints) }

def decideReport (epoch : BitVec 32) : Metadata :=
  if epoch≠cmd.eEpoch ∧ 0 < cmd.eEpoch then
    let drops := cmd.eIngressPackets-cmd.eEgressPackets
    let highDelays := match t.highDelaysThreshold cmd.flowID with
      | some threshold => decide (threshold ≤ cmd.eHighDelays)
      | none => false
    let bandwidthOrDrops := match t.bandwidthThresholds cmd.flowID with
      | some (bandwidth,maxDrops) => decide (cmd.eEgressBytes<bandwidth ∨ maxDrops≤drops)
      | none => false
    { cmd with
      eDrops := drops
      -- the source sets the flag before any of the tests
      eReport := true || highDelays || bandwidthOrDrops || decide (0 < cmd.eContentionPoints) ||
        decide (0 < cmd.eSuspicionPoints) }
  else cmd

def createReport : Report where
  epoch := cmd.eEpoch
  egressEpoch := cmd.eEgressEpoch
  flowID := cmd.flowID
  pathSrc := cmd.ePathSrc
  pathLength := cmd.ePathLength
  pathCode := cmd.ePathCode
  contentionPoints := cmd.eContentionPoints
  suspicionPoints := cmd.eSuspicionPoints
  pathDst := cmd.nodeID.setWidth 16
  highDelays := cmd.eHighDelays
  drops := cmd.eDrops
  ingressPackets := cmd.eIngressPackets
  ingressBytes := cmd.eIngressBytes
  egressPackets := cmd.eEgressPackets
  egressBytes := cmd.eEgressBytes

/-- What a packet leaves the egress control with; `received` is the telemetry header that the
egress node evaluated and removed, `report` the header of the clone. -/
structure Sent where
  regs : Registers
  hdrs : Headers
  received : Option Telemetry := none
  report : Option Report := none

def egressNode : Sent :=
  let tel := { tel with e2eDelay := tel.e2eDelay+enDelay }
  let cmd := readFlow a.junk regs cmd
  let final := decideReport t cmd tel.epoch
  { regs := updateRegisters t regs cmd a length tel
    hdrs :=
      { hdrs with
        ipv4 := hdrs.ipv4.map fun ip =>
          { ip with
            protocol := tel.nextHeader
            totalLength := ip.totalLength-.ofNat 16 telemetryHs }
        telemetry := none }
    received := some tel
    report := if final.eReport then some (createReport final) else none }

def egress (port : BitVec 9) : Sent :=
  if hdrs.report.isNone ∧ hdrs.arp=false then
    let hdrs := if hdrs.telemetry.isNone ∧ cmd.isIngressNode then createTelemetry a.junk cmd hdrs else hdrs
    match hdrs.telemetry with
    | none => { regs, hdrs }
    | some tel =>
      let tel := onAllNodes t a port tel
      if cmd.isEgressNode then egressNode t regs hdrs cmd a length tel
      else { regs, hdrs := { hdrs with telemetry := some tel } }
  else { regs, hdrs }

/-- The effect of a packet on a switch: its registers, the frame that leaves it, the telemetry
header evaluated here and the report. -/
structure Outcome where
  regs : Registers
  frame : Option Frame := none
  received : Option Telemetry := none
  report : Option Report := none

def pass (f : Frame) (a : Passage) : Outcome :=
  let r := ingress t regs (parse f) a f.length
  if r.egressSpec=dropPort ∨ a.lost ∨ r.egressSpec=0 then { regs := r.regs }
  else
    let s := egress t r.regs r.hdrs r.cmd a f.length r.egressSpec
    { regs := s.regs, frame := some (deparse f s.hdrs), received := s.received, report := s.report }
end P4Benchmarks.IntSight
