import P4Benchmarks.Lib.Register
import P4Benchmarks.Lib.Bytes
/-!
# P4-MACsec: the pipeline

`ExternCrypt` of `simple_switch.cpp` on the bytes of a frame, and the controls of `basic.p4`.  Data that makes
the C++ code ask for a vector of negative size gives no result.  A frame that carried a SecTAG is
recirculated and makes another pass.
-/
namespace P4Benchmarks.Macsec
open Lib
def sakSize : Nat := 16
def sciSize : Nat := 8
def pnSize : Nat := 4
def addrSize : Nat := 6
def sectagSize : Nat := 16
def icvSize : Nat := 16
def ipv4HdrSize : Nat := 20
def ethertypeSize : Nat := 2

/-- What the extern takes from its environment: AES-GCM of OpenSSL, with a key of 16 bytes and an
initialization vector of 12 bytes, and the strings of the values that the switch passes to it. -/
structure Environment where
  encrypt : (key iv aad plain : List Byte) → List Byte × List Byte
  decrypt : (key iv aad cipher tag : List Byte) → Bool × List Byte
  getString : {w : Nat} → BitVec w → List Byte
  length_encrypt : ∀ key iv aad plain, (encrypt key iv aad plain).1.length=plain.length
  length_tag : ∀ key iv aad plain, (encrypt key iv aad plain).2.length=icvSize
  length_decrypt : ∀ key iv aad cipher tag, (decrypt key iv aad cipher tag).2.length=cipher.length

def identityCipher (accepts : Bool) : Environment where
  encrypt := fun _ _ _ plain => (plain,List.replicate icvSize 0)
  decrypt := fun _ _ _ cipher _ => (accepts,cipher)
  getString := fun {w} v => fieldBytes ((w+7)/8) v
  length_encrypt := fun _ _ _ _ => rfl
  length_tag := fun _ _ _ _ => rfl
  length_decrypt := fun _ _ _ _ _ => rfl

/-- `get_char_vector`: the string is inserted before a vector of `size` zeros. -/
def getCharVector (str : List Byte) (size : Nat) : List Byte := str.take size++List.replicate size 0

structure Parameters where
  sak : BitVec 128
  sci : BitVec 64
  pn : BitVec 32
  (srcAddr dstAddr : BitVec 48)
  sectag : BitVec 128
namespace Parameters
variable (E : Environment) (a : Parameters)
def key : List Byte := (getCharVector (E.getString a.sak) sakSize).take 16
def ivVector : List Byte := getCharVector (E.getString a.sci) sciSize++getCharVector (E.getString a.pn) pnSize
def nonce : List Byte := (a.ivVector E).take 12

def additionalData : List Byte :=
  getCharVector (E.getString a.dstAddr) addrSize ++ getCharVector (E.getString a.srcAddr) addrSize ++
    getCharVector (E.getString a.sectag) sectagSize
end Parameters
variable (E : Environment) (a : Parameters)
/-- `protect`; the character `T` asks for the IPv4 header before the payload. -/
def protect (ethertype : BitVec 16) (prependIpv4Hdr : BitVec 8) (ipv4Hdr : BitVec 160) (data : List Byte) : List Byte :=
  let ethertype := (getCharVector (E.getString ethertype) ethertypeSize).take ethertypeSize
  let ipv4Hdr :=
    if E.getString prependIpv4Hdr=[0x54] then (getCharVector (E.getString ipv4Hdr) ipv4HdrSize).take ipv4HdrSize
    else []
  let r := E.encrypt (a.key E) (a.nonce E) (a.additionalData E) (ethertype++ipv4Hdr++data)
  r.1++r.2
variable (data : List Byte)
def validationFunction : Bool × List Byte :=
  let secureData := data.take (data.length-icvSize)
  let integrityCheckValue := data.drop (data.length-icvSize)
  E.decrypt (a.key E) (a.nonce E) (a.additionalData E) secureData integrityCheckValue

def validate : Option (Bool × BitVec 16 × List Byte) :=
  if icvSize+ethertypeSize≤data.length then
    let r := validationFunction E a data
    some (r.1,fieldAt 16 r.2 0 ethertypeSize,r.2.drop ethertypeSize)
  else none

def controllerPort : BitVec 9 := 16
def dropPort : BitVec 9 := 0x1FF
def typeIpv4 : BitVec 16 := 0x800
def typeArp : BitVec 16 := 0x806
def typeLldp : BitVec 16 := 0x88cc
def typeMacsec : BitVec 16 := 0x88e5
def typeBddp : BitVec 16 := 0x8999
def dstMacUnknown : BitVec 16 := 1
def srcMacUnknown : BitVec 16 := 2
def srcMacTimeout : BitVec 16 := 3
def srcMacChangedPort : BitVec 16 := 4
def arpIn : BitVec 16 := 10
def lldpIn : BitVec 16 := 11
def packetOutOnPort : BitVec 16 := 60001
def fullProcess : BitVec 16 := 60002

structure CpuHeader where
  zeros : BitVec 64
  (reason port : BitVec 16)
  timestamp : BitVec 48
deriving DecidableEq

structure Ethernet where
  (dstAddr srcAddr : BitVec 48)
  etherType : BitVec 16
deriving DecidableEq

structure Sectag where
  (tciV tciEs tciSc tciScb tciE tciC : BitVec 1)
  an : BitVec 2
  sl : BitVec 8
  pn : BitVec 32
  sci : BitVec 64
deriving DecidableEq
namespace Sectag
variable (t : Sectag)
def tci : BitVec 8 := t.tciV++t.tciEs++t.tciSc++t.tciScb++t.tciE++t.tciC++t.an
def bits : BitVec 128 := typeMacsec++t.tci++t.sl++t.pn++t.sci

def ofBytes : Sectag :=
  let tci : BitVec 8 := fieldAt 8 data 0 1
  { tciV := tci.extractLsb' 7 1
    tciEs := tci.extractLsb' 6 1
    tciSc := tci.extractLsb' 5 1
    tciScb := tci.extractLsb' 4 1
    tciE := tci.extractLsb' 3 1
    tciC := tci.extractLsb' 2 1
    an := tci.extractLsb' 0 2
    sl := fieldAt 8 data 1 1
    pn := fieldAt 32 data 2 4
    sci := fieldAt 64 data 6 8 }

def bytes : List Byte := fieldBytes 1 t.tci++fieldBytes 1 t.sl++fieldBytes 4 t.pn++fieldBytes 8 t.sci
end Sectag

def CpuHeader.ofBytes : CpuHeader :=
  ⟨fieldAt 64 data 0 8,fieldAt 16 data 8 2,fieldAt 16 data 10 2,fieldAt 48 data 12 6⟩

def CpuHeader.bytes (c : CpuHeader) : List Byte :=
  fieldBytes 8 c.zeros++fieldBytes 2 c.reason++fieldBytes 2 c.port++fieldBytes 6 c.timestamp

def Ethernet.ofBytes : Ethernet := ⟨fieldAt 48 data 0 6,fieldAt 48 data 6 6,fieldAt 16 data 12 2⟩

def Ethernet.bytes (e : Ethernet) : List Byte :=
  fieldBytes 6 e.dstAddr++fieldBytes 6 e.srcAddr++fieldBytes 2 e.etherType

/-- The headers that are valid, and the rest of the frame. The IPv4 header is kept as a whole. -/
structure Headers where
  cpuHeader : Option CpuHeader
  ethernet : Option Ethernet
  sectag : Option Sectag
  ipv4 : Option (BitVec 160)
  payload : List Byte
namespace Headers

/-- `parse_ethernet` and the states after it. A frame that is too short for a header keeps the
headers that were extracted before. -/
def parseEthernet (h : Headers) : Headers :=
  if h.payload.length<14 then h
  else
    let ethernet := Ethernet.ofBytes h.payload
    let h := { h with ethernet := some ethernet, payload := h.payload.drop 14 }
    if ethernet.etherType=typeIpv4 then
      if h.payload.length<20 then h
      else { h with ipv4 := some (fieldAt 160 h.payload 0 20), payload := h.payload.drop 20 }
    else if ethernet.etherType=typeMacsec then
      if h.payload.length<14 then h
      else { h with sectag := some (.ofBytes h.payload), payload := h.payload.drop 14 }
    else h

def parse (frame : List Byte) : Headers :=
  let h : Headers := ⟨none,none,none,none,frame⟩
  if frame.length<18 then h
  else if fieldAt 64 frame 0 8=0 then
    parseEthernet { h with cpuHeader := some (.ofBytes frame), payload := frame.drop 18 }
  else parseEthernet h

/-- `MyComputeChecksum` and `MyDeparser`; `updateChecksum` writes the checksum of an IPv4 header. -/
def deparse (updateChecksum : BitVec 160 → BitVec 160) (h : Headers) : List Byte :=
  (h.cpuHeader.map (·.bytes)).getD []++(h.ethernet.map (·.bytes)).getD [] ++ (h.sectag.map (·.bytes)).getD [] ++
    (h.ipv4.map fun ipv4 => fieldBytes 20 (updateChecksum ipv4)).getD []++h.payload
end Headers

structure UserMetadata where
  sak : BitVec 128
  systemId : BitVec 48
  registerNumber : BitVec 8
  srcMacTimeout : BitVec 48
  srcMacTablePort : BitVec 9
  (fromController recirculate recirculated : Bool)

def UserMetadata.initial : UserMetadata := ⟨0,0,0,0,0,false,false,false⟩

inductive SrcAction where
  | learnSrcMac
  | srcKnown (port : BitVec 9) (timestamp : BitVec 48)

inductive DstAction where
  | l2Forward (port : BitVec 9)
  | flood
  | drop

inductive ValidateAction where
  | noAction
  | validatePacket (key : BitVec 128)

inductive ProtectAction where
  | noAction
  | protectPacket (key : BitVec 128) (systemId : BitVec 48) (reg : BitVec 8)

structure Tables where
  macSrc : (srcAddr : BitVec 48) → Option SrcAction
  macDst : (dstAddr : BitVec 48) → Option DstAction
  validateTbl : (ingressPort : BitVec 9) → Option ValidateAction
  protectTbl : (egressPort : BitVec 9) → Option ProtectAction

structure State where
  hdr : Headers
  userMetadata : UserMetadata
  (ingressPort egressSpec : BitVec 9)
  ingressGlobalTimestamp : BitVec 48
namespace State
def drop (s : State) : State := { s with egressSpec := dropPort }
variable (junk : Unspecified)
/-- `send_to_controller`; a CPU header that was not valid has unspecified contents at first. -/
def sendToController (reason : BitVec 16) (s : State) : State :=
  let zeros := (s.hdr.cpuHeader.map (·.zeros)).getD (junk 64)
  { s with
    egressSpec := controllerPort
    hdr.cpuHeader := some ⟨zeros,reason,s.ingressPort.setWidth 16,s.ingressGlobalTimestamp⟩ }
variable (T : Tables) (e : Ethernet) (s : State)
def applyMacSrc : State :=
  match T.macSrc e.srcAddr with
  | some (.srcKnown port timestamp) =>
    { s with
      userMetadata.srcMacTablePort := port
      userMetadata.srcMacTimeout := timestamp }
  | some .learnSrcMac => s.sendToController junk srcMacUnknown
  | none => s.sendToController junk srcMacUnknown

def applyMacDst : State :=
  match T.macDst e.dstAddr with
  | some (.l2Forward port) => { s with egressSpec := port }
  | some .flood => s.sendToController junk dstMacUnknown
  | some .drop => s.drop
  | none => s.sendToController junk dstMacUnknown

def markFromController : State :=
  if (s.hdr.cpuHeader.map (·.reason))=some fullProcess then
    { s with hdr.cpuHeader := none, userMetadata.fromController := true }
  else { s with userMetadata.fromController := false }

def validateParameters (e : Ethernet) (t : Sectag) : Parameters :=
  ⟨s.userMetadata.sak,t.sci,t.pn,e.srcAddr,e.dstAddr,t.bits⟩

def applyValidateTbl (action : ValidateAction) (s : State) : State :=
  match action with
  | .noAction => s
  | .validatePacket key => { s with userMetadata.sak := key }
section
variable (s : State)
/-- A frame with a SecTAG whose port has an entry. The verdict `r.1` of the extern is not used. -/
def decapsulate (r : Bool × BitVec 16 × List Byte) : State :=
  { s with
    hdr.ethernet := some { e with etherType := r.2.1 }
    hdr.sectag := none
    hdr.payload := r.2.2
    userMetadata.recirculate := true }

def refreshSrc : State :=
  if s.userMetadata.fromController then s
  else
    let hit := (T.macSrc e.srcAddr).isSome
    let s := s.applyMacSrc junk T e
    if hit then
      if s.userMetadata.srcMacTimeout < s.ingressGlobalTimestamp then s.sendToController junk srcMacTimeout
      else if s.userMetadata.srcMacTablePort≠s.ingressPort then s.sendToController junk srcMacChangedPort
      else s
    else s

def lookupDst : State :=
  if s.hdr.cpuHeader.isNone then
    let hit := (T.macDst e.dstAddr).isSome
    let s := s.applyMacDst junk T e
    if !hit&&s.userMetadata.recirculated then s.drop else s
  else s

def dropReflected : State :=
  let s := if s.egressSpec=dropPort then s.drop else s
  if s.egressSpec≠controllerPort ∧ s.egressSpec=s.ingressPort then s.drop else s

def switchFrame : State := ((s.refreshSrc junk T e).lookupDst junk T e).dropReflected
end

def packetOut (c : CpuHeader) (s : State) : State :=
  { s with egressSpec := c.port.setWidth 9, hdr.cpuHeader := none }

def switchPlain : State :=
  match s.hdr.ethernet with
  | none => s
  | some e =>
    if e.etherType=typeLldp ∨ e.etherType=typeBddp then s.sendToController junk lldpIn
    else if e.etherType=typeArp then s.sendToController junk arpIn
    else s.switchFrame junk T e
variable (E : Environment) (junk : Unspecified)
def receive (T : Tables) (s : State) : Option State :=
  match s.hdr.ethernet, s.hdr.sectag with
  | some e, some t =>
    match T.validateTbl s.ingressPort with
    | none => some s
    | some action =>
      let s := s.applyValidateTbl action
      (validate E (s.validateParameters e t) s.hdr.payload).map (s.decapsulate e)
  | _, _ => some (s.switchPlain junk T)

def ingress (T : Tables) (s : State) : Option State :=
  let s := s.markFromController
  match s.hdr.cpuHeader with
  | some c => if c.reason=packetOutOnPort then some (s.packetOut c) else s.receive E junk T
  | none => s.receive E junk T

def applyProtectTbl (action : ProtectAction) (s : State) : State :=
  match action with
  | .noAction => s
  | .protectPacket key systemId reg =>
    { s with
      userMetadata.sak := key
      userMetadata.systemId := systemId
      userMetadata.registerNumber := reg }

def outgoingSectag (pn : BitVec 32) (sci : BitVec 64) : Sectag := ⟨0,0,1,0,1,1,0,0,pn,sci⟩

def protectParameters (egressPort : BitVec 9) (e : Ethernet) (pn : BitVec 32) : Parameters :=
  let sci : BitVec 64 := s.userMetadata.systemId++egressPort.setWidth 16
  ⟨s.userMetadata.sak,sci,pn,e.srcAddr,e.dstAddr,(outgoingSectag pn sci).bits⟩

def encapsulate (a : Parameters) (e : Ethernet) (s : State) : State :=
  let prependIpv4 : BitVec 8 := if s.hdr.ipv4.isSome then 0x54 else 0x46
  { s with
    hdr.sectag := some (outgoingSectag a.pn a.sci)
    hdr.ipv4 := none
    hdr.payload := protect E a e.etherType prependIpv4 (s.hdr.ipv4.getD 0) s.hdr.payload
    hdr.ethernet := some { e with etherType := typeMacsec } }
end State

/-- What `MyEgress` leaves: the frame, the packet numbers, the parameters if `protect` was called, and
whether the frame is recirculated. -/
structure EgressResult where
  state : State
  outgoingPacketNumbers : Register 64 32
  protectCall : Option Parameters
  recirculated : Bool
namespace State
def egressProtect (E : Environment) (junk : Unspecified) (outgoingPacketNumbers : Register 64 32)
    (egressPort : BitVec 9) (action : ProtectAction) (e : Ethernet) (s : State) : EgressResult :=
  let s := s.applyProtectTbl action
  let reg := s.userMetadata.registerNumber.toNat
  let pn := outgoingPacketNumbers.read junk reg
  let a := s.protectParameters egressPort e pn
  ⟨s.encapsulate E a e,outgoingPacketNumbers.write reg (pn+1),some a,false⟩

def egress (E : Environment) (junk : Unspecified) (T : Tables)
    (outgoingPacketNumbers : Register 64 32) (egressPort : BitVec 9) (s : State) : EgressResult :=
  if s.userMetadata.recirculate then
    ⟨{ s with userMetadata.recirculate := false, userMetadata.recirculated := true },outgoingPacketNumbers,none,true⟩
  else
    match s.hdr.cpuHeader, s.hdr.ethernet, T.protectTbl egressPort with
    | none, some e, some action =>
      if e.etherType≠typeArp ∧ e.etherType≠typeBddp then
        s.egressProtect E junk outgoingPacketNumbers egressPort action e
      else ⟨s,outgoingPacketNumbers,none,false⟩
    | _, _, _ => ⟨s,outgoingPacketNumbers,none,false⟩
end State

inductive Outcome where
  | sent (port : BitVec 9) (frame : List Byte)
  | dropped
  | recirculated (userMetadata : UserMetadata) (frame : List Byte)

/-- What a pass meets apart from the frame: the tables and the units of the switch, the time, and the
packet numbers. -/
structure Switch where
  environment : Environment
  junk : Unspecified
  updateChecksum : BitVec 160 → BitVec 160
  tables : Tables
  timestamp : BitVec 48
  outgoingPacketNumbers : Register 64 32
variable (W : Switch) (ingressPort : BitVec 9) (m : UserMetadata) (frame : List Byte)
def Switch.arrive : State := ⟨.parse frame,m,ingressPort,0,W.timestamp⟩

def Switch.depart (s : State) : Outcome :=
  if s.egressSpec=dropPort then .dropped
  else
    let r := s.egress W.environment W.junk W.tables W.outgoingPacketNumbers s.egressSpec
    let frame := r.state.hdr.deparse W.updateChecksum
    if r.recirculated then .recirculated r.state.userMetadata frame
    else .sent s.egressSpec frame

def Switch.pass : Option Outcome :=
  ((W.arrive ingressPort m frame).ingress W.environment W.junk W.tables).map W.depart
end P4Benchmarks.Macsec
