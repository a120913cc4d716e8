import Mathlib.Data.BitVec
/-!
# The switch of the SYN proxy

The ingress control of `proxy.p4`.  Checksum fields, which the switch computes anew for every
packet, are left out.
-/
namespace P4Benchmarks.SynProxy
def typeIpv4 : BitVec 16 := 0x800
def tcpProtocol : BitVec 8 := 0x06
def timerCount : BitVec 5 := 15
def mssServerEncodingValue : BitVec 3 := 1
def serverAddress : BitVec 32 := 167772419
def dropPort : BitVec 9 := 511

structure Ethernet where
  (dstAddr srcAddr : BitVec 48)
  etherType : BitVec 16
  deriving DecidableEq

structure Ipv4 where
  (version ihl : BitVec 4)
  diffserv : BitVec 8
  (totalLen identification : BitVec 16)
  flags : BitVec 3
  fragOffset : BitVec 13
  (ttl protocol : BitVec 8)
  (srcAddr dstAddr : BitVec 32)
  deriving DecidableEq

structure Tcp where
  (srcPort dstPort : BitVec 16)
  (seqNo ackNo : BitVec 32)
  (dataOffset res : BitVec 4)
  (cwr ece urg ack psh rst syn fin : Bool)
  (window urgentPtr : BitVec 16)
  deriving DecidableEq

structure Segment where
  ethernet : Ethernet
  ipv4 : Ipv4
  tcp : Tcp
  deriving DecidableEq

inductive Headers where
  | ethernet (eth : Ethernet)
  | ipv4 (eth : Ethernet) (ip : Ipv4)
  | tcp (seg : Segment)
  deriving DecidableEq

/-- A packet on the wire: the bytes behind the Ethernet header read as an IPv4 and a TCP header, as
far as there are enough of them. -/
structure Frame where
  ethernet : Ethernet
  ipv4 : Option Ipv4
  tcp : Option Tcp
  deriving DecidableEq

/-- `MyParser`. A header that the packet is too short for stays invalid. -/
def myParser (f : Frame) : Headers :=
  if f.ethernet.etherType=typeIpv4 then
    match f.ipv4, f.tcp with
    | none, _ => .ethernet f.ethernet
    | some ip, none => .ipv4 f.ethernet ip
    | some ip, some tcp => if ip.protocol=tcpProtocol then .tcp ⟨f.ethernet,ip,tcp⟩ else .ipv4 f.ethernet ip
  else .ethernet f.ethernet

structure FiveTuple where
  (srcAddr dstAddr : BitVec 32)
  (srcPort dstPort : BitVec 16)
  protocol : BitVec 8
  deriving DecidableEq

def FiveTuple.reverse (t : FiveTuple) : FiveTuple := ⟨t.dstAddr,t.srcAddr,t.dstPort,t.srcPort,t.protocol⟩

def Segment.fiveTuple (seg : Segment) : FiveTuple :=
  ⟨seg.ipv4.srcAddr,seg.ipv4.dstAddr,seg.tcp.srcPort,seg.tcp.dstPort,seg.ipv4.protocol⟩

structure HashUnits where
  crc16 : BitVec 32 → BitVec 16 → BitVec 5 → BitVec 16
  crc32 : FiveTuple → BitVec 32
namespace HashUnits
variable (H : HashUnits)
def connectionHash (t : FiveTuple) : BitVec 32 := .ofNat 32 ((H.crc32 t).toNat%65535)

/-- The cookie for a client. The source gives the range of the hash as `2^24`, which is an
exclusive or. -/
def cookie (clientIPAddress : BitVec 32) (clientPortNum : BitVec 16) : BitVec 32 :=
  let hashValue : BitVec 24 :=
    .ofNat 24 ((H.crc16 clientIPAddress clientPortNum timerCount).toNat%(2^^^24 : BitVec 24).toNat)
  (((timerCount.setWidth 8<<<3)|||mssServerEncodingValue.setWidth 8).setWidth 32<<<24) |||
    hashValue.setWidth 32
end HashUnits

structure Metadata where
  isValidCookie : Bool
  (connectionHash connectionHashRev : BitVec 32)
  isConnectionEstablished : Bool
  (tempDiff seqDiff seqDiffRev cookieValue : BitVec 32)
  tcpLength : BitVec 16
  debugBool : Bool
  deriving DecidableEq

def Metadata.zero : Metadata := ⟨false,0,0,false,0,0,0,0,0,false⟩

structure Digest where
  type : BitVec 8
  (arg1 arg2 arg3 arg4 : BitVec 32)
  deriving DecidableEq
variable (m : Metadata)
def sendDigestConnection : Digest := ⟨2,m.connectionHash,m.seqDiff,m.connectionHashRev,m.seqDiffRev⟩
def sendDigestDebug (extra : BitVec 32) : Digest := ⟨0,if m.debugBool then 1 else 0,extra,0,0⟩
variable (H : HashUnits) (m : Metadata) (seg : Segment)
def computeConnectionHash : Metadata :=
  { m with
    seqDiff := m.cookieValue-seg.tcp.seqNo
    connectionHash := H.connectionHash seg.fiveTuple
    seqDiffRev := seg.tcp.seqNo-m.cookieValue
    connectionHashRev := H.connectionHash seg.fiveTuple.reverse }
variable (seg : Segment)
def Segment.turn : Segment where
  ethernet := { seg.ethernet with dstAddr := seg.ethernet.srcAddr, srcAddr := seg.ethernet.dstAddr }
  ipv4 := { seg.ipv4 with srcAddr := seg.ipv4.dstAddr, dstAddr := seg.ipv4.srcAddr }
  tcp := { seg.tcp with dstPort := seg.tcp.srcPort, srcPort := seg.tcp.dstPort }

def createSynCookiePacket : Segment :=
  { seg.turn with
    tcp := { seg.turn.tcp with
      syn := true
      ack := true
      ackNo := seg.tcp.seqNo+1
      seqNo := H.cookie seg.ipv4.srcAddr seg.tcp.srcPort } }

def computeCookieValue : Metadata :=
  { m with
    cookieValue :=
      if seg.ipv4.srcAddr=serverAddress then H.cookie seg.ipv4.dstAddr seg.tcp.dstPort
      else H.cookie seg.ipv4.srcAddr seg.tcp.srcPort }

def validateSynCookie : Metadata :=
  { m with
    isValidCookie := decide (seg.tcp.ackNo-1=H.cookie seg.ipv4.srcAddr seg.tcp.srcPort) }

def createNewTcpConnection : Segment :=
  { seg with
    tcp := { seg.tcp with
      syn := true
      ack := false
      seqNo := seg.tcp.seqNo-1
      ackNo := 0
      dataOffset := 5 } }

def createAckResponse : Segment :=
  { seg.turn with
    tcp := { seg.turn.tcp with
      syn := false
      ack := true
      psh := false
      seqNo := seg.tcp.ackNo
      ackNo := seg.tcp.seqNo+1 } }
variable (difference : BitVec 32)
def saveDifferenceValue : Metadata := { m with tempDiff := difference }
def markDirection : Metadata := { m with debugBool := decide (seg.ipv4.srcAddr=serverAddress) }

def forwardRequest : Segment :=
  if seg.ipv4.srcAddr=serverAddress then { seg with tcp := { seg.tcp with seqNo := seg.tcp.seqNo+m.tempDiff } }
  else { seg with tcp := { seg.tcp with ackNo := seg.tcp.ackNo+m.tempDiff } }

def computeTcpLength (ip : Ipv4) : Metadata := { m with tcpLength := ip.totalLen-ip.ihl.setWidth 16*4 }
abbrev Connections := List (BitVec 32 × BitVec 32)

inductive LpmAction where
  | ipv4Forward (dstAddr : BitVec 48) (port : BitVec 9)
  | drop
  | noAction

abbrev Ipv4Lpm := BitVec 32 → LpmAction

/-- Where the TCP part of the control leaves a segment; it has `returned` if the segment is
dropped on the spot. -/
structure TcpResult where
  seg : Segment
  metadata : Metadata
  digests : List Digest
  returned : Bool
  deriving DecidableEq

def handshake : TcpResult :=
  if seg.tcp.syn ∧ seg.tcp.ack=false then ⟨createSynCookiePacket H seg,m,[],false⟩
  else if seg.tcp.ack ∧ seg.tcp.syn=false then
    if (validateSynCookie H m seg).isValidCookie then
      ⟨createNewTcpConnection seg,{ validateSynCookie H m seg with isValidCookie := false },[],false⟩
    else ⟨seg,validateSynCookie H m seg,[],true⟩
  else if seg.tcp.ack ∧ seg.tcp.syn ∧ seg.tcp.psh=false then
    ⟨createAckResponse seg,computeConnectionHash H (computeCookieValue H m seg) seg,
      [sendDigestConnection (computeConnectionHash H (computeCookieValue H m seg) seg)],false⟩
  else ⟨seg,m,[sendDigestDebug m 0],true⟩

def established : Metadata := { saveDifferenceValue m difference with isConnectionEstablished := true }

def applyTcp (connections : Connections) (seg : Segment) : TcpResult :=
  match connections.lookup (computeConnectionHash H .zero seg).connectionHash with
  | some difference =>
    let m := established (computeConnectionHash H .zero seg) difference
    ⟨forwardRequest m seg,markDirection m seg,[],false⟩
  | none => handshake H (computeConnectionHash H .zero seg) seg
namespace LpmAction
def egressSpec : LpmAction → BitVec 9
  | ipv4Forward _ port => port
  | drop => dropPort
  | noAction => 0

def onEthernet (eth : Ethernet) : LpmAction → Ethernet
  | ipv4Forward dstAddr _ => { eth with srcAddr := eth.dstAddr, dstAddr := dstAddr }
  | _ => eth

def onIpv4 (ip : Ipv4) : LpmAction → Ipv4
  | ipv4Forward _ _ => { ip with ttl := ip.ttl-1 }
  | _ => ip

def onSegment (a : LpmAction) : Segment := ⟨a.onEthernet seg.ethernet,a.onIpv4 seg.ipv4,seg.tcp⟩
def Routes (a : LpmAction) : Prop := a.egressSpec≠dropPort
instance (a : LpmAction) : Decidable a.Routes := inferInstanceAs (Decidable (_≠_))
end LpmAction

structure IngressResult where
  hdr : Headers
  metadata : Metadata
  egressSpec : BitVec 9
  digests : List Digest
  deriving DecidableEq

def myIngress (ipv4Lpm : Ipv4Lpm) (connections : Connections) : Headers → IngressResult
  | .ethernet eth => ⟨.ethernet eth,.zero,0,[]⟩
  | .ipv4 eth ip =>
    let action := ipv4Lpm ip.dstAddr
    ⟨.ipv4 (action.onEthernet eth) (action.onIpv4 ip),computeTcpLength .zero (action.onIpv4 ip),action.egressSpec,[]⟩
  | .tcp seg =>
    let r := applyTcp H connections seg
    if r.returned then ⟨.tcp r.seg,r.metadata,dropPort,r.digests⟩
    else
      let action := ipv4Lpm r.seg.ipv4.dstAddr
      ⟨.tcp (action.onSegment r.seg),computeTcpLength r.metadata (action.onIpv4 r.seg.ipv4),action.egressSpec,r.digests⟩

def IngressResult.output (r : IngressResult) : Option (BitVec 9 × Headers) :=
  if r.egressSpec=dropPort then none else some (r.egressSpec,r.hdr)

def Segment.IsSynAck : Prop := seg.tcp.syn ∧ seg.tcp.ack ∧ seg.tcp.psh=false
instance (seg : Segment) : Decidable seg.IsSynAck := inferInstanceAs (Decidable (_ ∧ _ ∧ _))

def Segment.ReturnsCookie : Prop :=
  seg.tcp.ack ∧ seg.tcp.syn=false ∧ seg.tcp.ackNo-1=H.cookie seg.ipv4.srcAddr seg.tcp.srcPort

structure Segment.Answers (reply seg : Segment) : Prop where
  syn : reply.tcp.syn
  ack : reply.tcp.ack
  fiveTuple : reply.fiveTuple=seg.fiveTuple.reverse
  ackNo : reply.tcp.ackNo=seg.tcp.seqNo+1

@[simp] theorem LpmAction.fiveTuple_onSegment (a : LpmAction) (seg : Segment) :
    (a.onSegment seg).fiveTuple=seg.fiveTuple := by
  cases a <;> rfl
variable {H : HashUnits} {ipv4Lpm : Ipv4Lpm} {connections : Connections} {m : Metadata}
  {seg : Segment}

theorem handshake_digests (H : HashUnits) (m : Metadata) (seg : Segment) :
    ∀ d ∈ (handshake H m seg).digests, d.type=0 ∨ seg.IsSynAck ∧ d.type=2 ∧
      d.arg1=H.connectionHash seg.fiveTuple ∧ d.arg3=H.connectionHash seg.fiveTuple.reverse := by
  intro d hd
  unfold handshake at hd
  split_ifs at hd with hsyn hack hvalid hsynAck
  · cases hd
  · cases hd
  · cases hd
  · cases List.mem_singleton.mp hd
    exact .inr ⟨⟨hsynAck.2.1,hsynAck.1,hsynAck.2.2⟩,rfl,rfl,rfl⟩
  · cases List.mem_singleton.mp hd
    exact .inl rfl

theorem handshake_of_isSynAck (h : seg.IsSynAck) : handshake H m seg =
      ⟨createAckResponse seg,computeConnectionHash H (computeCookieValue H m seg) seg,
        [sendDigestConnection (computeConnectionHash H (computeCookieValue H m seg) seg)],false⟩ := by
  obtain ⟨hsyn,hack,hpsh⟩ := h
  simp [handshake,hsyn,hack,hpsh]

theorem handshake_of_not_returnsCookie (hsynAck : ¬ seg.IsSynAck) (hcookie : ¬ seg.ReturnsCookie H) :
    (handshake H m seg).returned ∨ (handshake H m seg).seg=createSynCookiePacket H seg := by
  unfold handshake
  split_ifs with hsyn hack hvalid hboth
  · exact .inr rfl
  · exact absurd ⟨hack.1,hack.2,of_decide_eq_true hvalid⟩ hcookie
  · exact .inl rfl
  · exact absurd ⟨hboth.2.1,hboth.1,hboth.2.2⟩ hsynAck
  · exact .inl rfl

theorem createSynCookiePacket_answers (a : LpmAction) (H : HashUnits) (seg : Segment) :
    (a.onSegment (createSynCookiePacket H seg)).Answers seg :=
  ⟨rfl,rfl,a.fiveTuple_onSegment _,rfl⟩

theorem applyTcp_of_lookup_eq_none (h : connections.lookup (H.connectionHash seg.fiveTuple)=none) :
    applyTcp H connections seg=handshake H (computeConnectionHash H .zero seg) seg := by
  unfold applyTcp
  rw [show (computeConnectionHash H .zero seg).connectionHash=H.connectionHash seg.fiveTuple from rfl,h]

theorem applyTcp_of_lookup_isSome (h : (connections.lookup (H.connectionHash seg.fiveTuple)).isSome) :
    (applyTcp H connections seg).returned=false ∧ (applyTcp H connections seg).seg.fiveTuple=seg.fiveTuple := by
  obtain ⟨difference,hlookup⟩ := Option.isSome_iff_exists.mp h
  unfold applyTcp
  rw [show (computeConnectionHash H .zero seg).connectionHash=H.connectionHash seg.fiveTuple from rfl,hlookup]
  refine ⟨rfl,?_⟩
  unfold forwardRequest
  split_ifs <;> rfl

theorem applyTcp_digests (H : HashUnits) (connections : Connections) (seg : Segment) :
    ∀ d ∈ (applyTcp H connections seg).digests, d.type=0 ∨ seg.IsSynAck ∧ d.type=2 ∧
      d.arg1=H.connectionHash seg.fiveTuple ∧ d.arg3=H.connectionHash seg.fiveTuple.reverse := by
  intro d hd
  unfold applyTcp at hd
  split at hd
  · cases hd
  · exact handshake_digests H _ seg d hd

theorem myIngress_tcp_digests : (myIngress H ipv4Lpm connections (.tcp seg)).digests =
    (applyTcp H connections seg).digests := by
  unfold myIngress
  dsimp only
  split_ifs <;> rfl

theorem output_of_returned (h : (applyTcp H connections seg).returned) :
    (myIngress H ipv4Lpm connections (.tcp seg)).output=none := by
  unfold myIngress
  dsimp only
  rw [if_pos h]
  rfl

theorem output_of_not_returned (h : (applyTcp H connections seg).returned=false)
    {action : LpmAction} (haction : ipv4Lpm (applyTcp H connections seg).seg.ipv4.dstAddr=action) :
    (myIngress H ipv4Lpm connections (.tcp seg)).output = if action.egressSpec=dropPort then none
      else some (action.egressSpec,.tcp (action.onSegment (applyTcp H connections seg).seg)) := by
  unfold myIngress
  dsimp only
  rw [h,if_neg Bool.false_ne_true,haction]
  rfl
end P4Benchmarks.SynProxy
