import P4Benchmarks.Ipsec.Crypt
import P4Benchmarks.Lib.Register
/-!
# P4-IPsec: the ingress pipeline

`MyIngress` of `basic.p4`: the security policy database, the two security association databases, the
forwarding table and the notifications about packet limits.
-/
namespace P4Benchmarks.Ipsec
open Lib
def controllerPort : BitVec 9 := 16
def dropPort : BitVec 9 := 0x1FF
def protocolEsp : BitVec 8 := 0x32
def ipsecSoftPacketLimit : BitVec 16 := 1
def ipsecHardPacketLimit : BitVec 16 := 2

structure CpuHeader where
  zeros : BitVec 64
  (reason port : BitVec 16)
  timestamp : BitVec 48

structure Ethernet where
  (dstAddr srcAddr : BitVec 48)
  etherType : BitVec 16

/-- A packet in the ingress with its metadata, the counters, and the variables of the control. The
fields of a header that is not valid may hold anything. -/
structure State where
  cpuHeaderValid : Bool
  cpuHeader : CpuHeader
  ethernet : Ethernet
  ipv4Valid : Bool
  ipv4 : Ipv4
  espValid : Bool
  esp : Esp
  payload : List Byte
  egressSpec : BitVec 9
  mcastGrp : BitVec 16
  ingressGlobalTimestamp : BitVec 48
  spdMark : BitVec 4
  counters : Register 1024 32
  (notifySoft notifyHard doDrop : Bool)

inductive SpdAction where
  | addSpdMark (spdMark : BitVec 4)
  | drop

inductive ForwardAction where
  | l3Forward (port : BitVec 9)
  | l2Forward (dstAddr : BitVec 48) (port : BitVec 9)
  | drop

structure Association where
  (spi src dst registerIndex softPacketLimit hardPacketLimit : BitVec 32)

inductive EncryptAction where
  | espEncryptAesCtr (key keyHmac : List Byte) (sa : Association)
  | espEncryptNull (sa : Association)
  | sadbAcquire

inductive DecryptAction where
  | noAction
  | espDecryptAesCtr (key keyHmac : List Byte) (registerIndex : BitVec 32)
  | espDecryptNull (registerIndex : BitVec 32)

/-- The contents of the tables, as the entry that a lookup finds. Keys are the bytes that the switch
gets from the control plane. -/
structure Tables where
  spd : (dstAddr : BitVec 32) → (protocol : BitVec 8) → Option SpdAction
  sadEncrypt : (dstAddr : BitVec 32) → Option EncryptAction
  sadDecrypt : (srcAddr dstAddr spi : BitVec 32) → Option DecryptAction
  forward : (dstAddr : BitVec 32) → Option ForwardAction
namespace State
variable (s : State)
def drop : State := { s with egressSpec := dropPort, mcastGrp := 0 }

def sendToController (reason : BitVec 16) (s : State) : State :=
  { s with
    egressSpec := controllerPort
    cpuHeaderValid := true
    cpuHeader := { s.cpuHeader with reason := reason, timestamp := s.ingressGlobalTimestamp } }

def sadbAcquire : State := s.sendToController 3
def l3Forward (port : BitVec 9) (s : State) : State := { s with egressSpec := port, ipv4.ttl := s.ipv4.ttl-1 }

def l2Forward (dstAddr : BitVec 48) (port : BitVec 9) (s : State) : State :=
  { s with
    egressSpec := port
    ethernet := { s.ethernet with srcAddr := s.ethernet.dstAddr, dstAddr := dstAddr }
    ipv4.ttl := s.ipv4.ttl-1 }

def count (junk : Unspecified) (i : BitVec 32) (s : State) : State :=
  { s with counters := s.counters.write i.toNat (s.counters.read junk i.toNat+1) }

def decapsulate (junk : Unspecified) (registerIndex : BitVec 32) (s : State) (r : Ipv4 × Bool × List Byte) : State :=
  let s := if r.2.1 then { s with egressSpec := dropPort, mcastGrp := 0 } else s
  { s with ipv4 := r.1, payload := r.2.2, espValid := false }.count junk registerIndex
variable (P : Primitives) (junk : Unspecified)
def espDecryptAesCtr (key keyHmac : List Byte) (registerIndex : BitVec 32) (s : State) : Option State :=
  (decryptAesCtr P key keyHmac s.esp s.payload).map (s.decapsulate junk registerIndex)

def espDecryptNull (registerIndex : BitVec 32) (s : State) : Option State :=
  (decryptNull s.payload).map fun r =>
    { s with ipv4 := r.1, payload := r.2, espValid := false }.count junk registerIndex
variable (sa : Association)
def espHeader (tmp : BitVec 32) : Esp := ⟨sa.spi,tmp+1⟩

def encapsulate (r : Ipv4 × List Byte) (s : State) : State :=
  let tmp := s.counters.read junk sa.registerIndex.toNat
  { s.count junk sa.registerIndex with
    espValid := true
    esp := espHeader sa tmp
    ipv4 := { r.1 with
      identification := 1
      flags := 2
      fragOffset := 0
      ttl := 64
      protocol := protocolEsp
      srcAddr := sa.src
      dstAddr := sa.dst }
    payload := r.2
    notifySoft := sa.softPacketLimit==tmp
    notifyHard := sa.hardPacketLimit==tmp
    doDrop := decide (sa.hardPacketLimit<tmp) }

def espEncryptAesCtr (iv key keyHmac : List Byte) (sa : Association) (s : State) : State :=
  let tmp := s.counters.read junk sa.registerIndex.toNat
  s.encapsulate junk sa (encryptAesCtr P iv key keyHmac s.ipv4 (espHeader sa tmp) s.payload)

def espEncryptNull (s : State) : State := s.encapsulate junk sa (encryptNull s.ipv4 s.payload)

def applySpd (T : Tables) (s : State) : State :=
  match T.spd s.ipv4.dstAddr s.ipv4.protocol with
  | some (.addSpdMark m) => { s with spdMark := m }
  | some .drop => s.drop
  | none => s.drop
variable (iv : List Byte) (T : Tables) (s : State)
def applySadEncrypt : State :=
  match T.sadEncrypt s.ipv4.dstAddr with
  | some (.espEncryptAesCtr key keyHmac sa) => s.espEncryptAesCtr P junk iv key keyHmac sa
  | some (.espEncryptNull sa) => s.espEncryptNull junk sa
  | some .sadbAcquire => s.sadbAcquire
  | none => s.sadbAcquire

def applySadDecrypt : Option State :=
  match T.sadDecrypt s.ipv4.srcAddr s.ipv4.dstAddr s.esp.spi with
  | some (.espDecryptAesCtr key keyHmac i) => s.espDecryptAesCtr P junk key keyHmac i
  | some (.espDecryptNull i) => s.espDecryptNull junk i
  | some .noAction => some s
  | none => some s

def applyForward : State :=
  match T.forward s.ipv4.dstAddr with
  | some (.l3Forward port) => s.l3Forward port
  | some (.l2Forward dstAddr port) => s.l2Forward dstAddr port
  | some .drop => s.drop
  | none => s.drop

def applyLimits : State :=
  if s.doDrop then s.drop
  else if s.notifySoft then s.sendToController ipsecSoftPacketLimit
  else if s.notifyHard then s.sendToController ipsecHardPacketLimit
  else s

def start : State := { s with notifySoft := false, notifyHard := false, doDrop := false }

/-- The databases and the forwarding table; `iv` is what the random generator returns if it is
asked. -/
def process : Option State :=
  if s.espValid then (s.applySadDecrypt P junk T).map (applyForward T)
  else if s.ipv4Valid then
    let s := s.applySpd T
    if s.spdMark=1 then some (s.applyForward T)
    else if s.spdMark=2 then some ((s.applySadEncrypt P junk iv T).applyForward T)
    else some s
  else some s

def ingress : Option State := (s.start.process P junk iv T).map applyLimits
end State
end P4Benchmarks.Ipsec
