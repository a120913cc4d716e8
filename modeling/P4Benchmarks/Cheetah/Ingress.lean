import P4Benchmarks.Lib.Register
/-!
# Cheetah: a stateful load balancer

`MyIngress` of `new-cheetah-stateful.p4`.  A connection takes a free index, which the client echoes
as a cookie, from one of two partitions.
-/
namespace P4Benchmarks.Cheetah
open Lib
def bucketSize : BitVec 16 := 6
def statefulSize : BitVec 16 := 10
def vip : BitVec 32 := 0x0a0000fe
def dropPort : BitVec 9 := 0x1FF

/-- A packet with the metadata of the program; without a TCP header the fields of that header may
hold anything. -/
structure Packet where
  ipv4Valid : Bool
  (srcAddr dstAddr : BitVec 32)
  protocol : BitVec 8
  tcpValid : Bool
  (srcPort dstPort : BitVec 16)
  (syn fin : BitVec 1)
  tsecrLsb : BitVec 16
  ethernetDst : BitVec 48
  egressSpec : BitVec 9
  (bucketId packetHash serverId : BitVec 16)

structure Server where
  egressPort : BitVec 16
  dip : BitVec 32
  macServer : BitVec 48

structure Tables where
  getServerFromBucket : (bucketId : BitVec 16) → Option (Server × BitVec 16)
  getServerFromId : (serverId : BitVec 16) → Option Server

structure Registers where
  (bucketCounter debugHash : BitVec 16)
  (indexToHash indexToServerId freeIndices : Register 20 16)
  (pushIndex popIndex : Register 2 16)

structure HashInput where
  ipAddrOne : BitVec 32
  (tcpPortOne tcpPortTwo : BitVec 16)
  ipProtocol : BitVec 8
deriving DecidableEq

def Packet.hashInput (p : Packet) : HashInput := ⟨p.srcAddr,p.dstPort,p.srcPort,p.protocol⟩
variable (crc16 : HashInput → BitVec 16)
def packetHash (x : HashInput) : BitVec 16 := .ofNat 16 ((crc16 x).toNat%65535)
def partition (hash : BitVec 16) : Bool := hash.getLsbD 0
variable (second : Bool)
def offset : BitVec 16 := if second then statefulSize else 0
def offsetUnit : Nat := if second then 1 else 0

def Packet.fwd (server : Server) (p : Packet) : Packet :=
  { p with
    dstAddr := server.dip
    ethernetDst := server.macServer
    egressSpec := server.egressPort.setWidth 9 }

def Packet.sentTo (T : Tables) (serverId : BitVec 16) (p : Packet) : Packet :=
  match T.getServerFromId serverId with
  | some server => p.fwd server
  | none => p

def Packet.sentToBucket (T : Tables) (bucketId : BitVec 16) (p : Packet) : Packet × BitVec 16 :=
  match T.getServerFromBucket bucketId with
  | some (server,serverId) => (p.fwd server,serverId)
  | none => (p,0)

def advance (i : BitVec 16) : BitVec 16 := if i+1=10+offset second then offset second else i+1
variable (junk : Unspecified) (second : Bool)
def release (cookie : BitVec 16) (r : Registers) : Registers :=
  let pushIndexValue := r.pushIndex.read junk (offsetUnit second)
  { r with
    freeIndices := r.freeIndices.write (pushIndexValue+offset second).toNat cookie
    pushIndex := r.pushIndex.write (offsetUnit second) (advance second pushIndexValue)
    indexToHash := r.indexToHash.write (cookie+offset second).toNat 0xffff
    indexToServerId := r.indexToServerId.write (cookie+offset second).toNat 0xffff }

def oldConnection (T : Tables) (second : Bool) (r : Registers) (p : Packet) : Registers × Packet :=
  let index := (p.tsecrLsb+offset second).toNat
  if p.packetHash≠r.indexToHash.read junk index then (r,{ p with egressSpec := dropPort })
  else
    let serverId := r.indexToServerId.read junk index
    let p := { p with serverId := serverId }.sentTo T serverId
    if p.fin=1 then (release junk second p.tsecrLsb r,p) else (r,p)

def nextCookie (r : Registers) : BitVec 16 :=
  r.freeIndices.read junk (r.popIndex.read junk (offsetUnit second)+offset second).toNat

def acquire (hash serverId : BitVec 16) (r : Registers) : Registers :=
  let popIndexValue := r.popIndex.read junk (offsetUnit second)
  let freeIndexValue := nextCookie junk second r
  { r with
    freeIndices := r.freeIndices.write (popIndexValue+offset second).toNat 0xffff
    popIndex := r.popIndex.write (offsetUnit second) (advance second popIndexValue)
    indexToHash := r.indexToHash.write (freeIndexValue+offset second).toNat hash
    indexToServerId := r.indexToServerId.write (freeIndexValue+offset second).toNat serverId }

def newConnection (T : Tables) (second : Bool) (r : Registers) (p : Packet) : Registers × Packet :=
  let bucketId := r.bucketCounter
  let sent := { p with bucketId := bucketId }.sentToBucket T bucketId
  let next := if bucketId+1=bucketSize then 0 else bucketId+1
  (acquire junk second p.packetHash sent.2 { r with bucketCounter := next },
    { sent.1 with bucketId := next, tsecrLsb := nextCookie junk second r })

def ingress (junk : Unspecified) (T : Tables) (r : Registers) (p : Packet) : Registers × Packet :=
  if p.ipv4Valid then
    if p.dstAddr=vip then
      if p.tcpValid then
        let hash := packetHash crc16 p.hashInput
        let r := { r with debugHash := hash }
        let p := { p with packetHash := hash }
        if p.syn=0 then oldConnection junk T (partition hash) r p
        else newConnection junk T (partition hash) r p
      else (r,p)
    else if p.tcpValid then (r,{ p with egressSpec := 1, ethernetDst := 0x00000a000001, srcAddr := vip })
    else (r,p)
  else (r,p)
end P4Benchmarks.Cheetah
