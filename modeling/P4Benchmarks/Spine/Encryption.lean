import Mathlib.Data.BitVec
/-!
# SPINE: encrypted addresses inside IPv6 addresses

The actions `encrypt` and `decrypt` of `basic.p4`, which hide addresses and TCP numbers under pads
of a keyed hash and pack them into IPv6 addresses.
-/
namespace P4Benchmarks.Spine
open BitVec
def typeIpv4 : BitVec 16 := 0x800
def typeIpv6 : BitVec 16 := 0x86DD
def typeTcp : BitVec 8 := 0x6
def versionIpv4 : BitVec 4 := 0x4
def versionIpv6 : BitVec 4 := 0x6
def const1 : BitVec 64 := 0x736f6d6570736575
def const2 : BitVec 64 := 0x646f72616e646f6d
def const3 : BitVec 64 := 0x6c7967656e657261
def const4 : BitVec 64 := 0x7465646279746573

structure Ipv4 where
  (version ihl : BitVec 4)
  diffserv : BitVec 8
  (totalLen identification : BitVec 16)
  flags : BitVec 3
  fragOffset : BitVec 13
  (ttl protocol : BitVec 8)
  hdrChecksum : BitVec 16
  (srcAddr dstAddr : BitVec 32)
  deriving Inhabited

structure Ipv6 where
  version : BitVec 4
  trafficClass : BitVec 8
  flowLabel : BitVec 20
  length : BitVec 16
  (nextHeader hopLimit : BitVec 8)
  (srcAddr dstAddr : BitVec 128)
  deriving Inhabited

structure Tcp where
  (srcPort dstPort : BitVec 16)
  (seqNo ackNo : BitVec 32)
  deriving Inhabited

/-- The headers. The fields of a header that is not valid may hold anything. -/
structure Headers where
  etherType : BitVec 16
  ipv4Valid : Bool
  ipv4 : Ipv4
  ipv6Valid : Bool
  ipv6 : Ipv6
  tcpValid : Bool
  tcp : Tcp
  deriving Inhabited

structure Words where
  (v0 v1 v2 v3 : BitVec 64)
  deriving Inhabited

structure Metadata where
  (keySrc1 keyDst1 keySrc2 keyDst2 : BitVec 64)
  (oneTimePadSrc oneTimePadDst : BitVec 32)
  nonce : BitVec 30
  version : BitVec 2
  newAddr : BitVec 128
  words : Words
  deriving Inhabited

structure State where
  hdr : Headers
  md : Metadata
  deriving Inhabited

/-- The twelve key parameters: for key versions 0, 1 and 2 a pair for the addresses and a pair for
the TCP numbers. -/
structure Keys where
  (keySrc01 keyDst01 keySrc11 keyDst11 keySrc21 keyDst21 keySrc02 keyDst02 keySrc12 : BitVec 64)
  (keyDst12 keySrc22 keyDst22 : BitVec 64)
  deriving Inhabited

/-- `sip_round`. The shifts drop the bits that leave the word. -/
def sipRound (w : Words) : Words :=
  let w := { w with v0 := w.v0+w.v1 }
  let w := { w with v2 := w.v2+w.v3 }
  let w := { w with v1 := w.v1<<<13 }
  let w := { w with v3 := w.v3<<<16 }
  let w := { w with v1 := w.v1^^^w.v0 }
  let w := { w with v3 := w.v3^^^w.v2 }
  let w := { w with v0 := w.v0<<<32 }
  let w := { w with v2 := w.v2+w.v1 }
  let w := { w with v0 := w.v0+w.v3 }
  let w := { w with v1 := w.v1<<<17 }
  let w := { w with v3 := w.v3<<<21 }
  let w := { w with v1 := w.v1^^^w.v2 }
  let w := { w with v3 := w.v3^^^w.v0 }
  { w with v2 := w.v2<<<32 }
variable (message keySrc keyDst : BitVec 64)
def sipWords : Words :=
  let w : Words := ⟨keySrc^^^const1,keyDst^^^const2,keySrc^^^const3,keyDst^^^const4⟩
  let w := { w with v3 := w.v3^^^message }
  let w := sipRound w
  let w := { w with v0 := w.v0^^^message }
  let w := { w with v2 := w.v2^^^0x00000000000000ff }
  let w := sipRound w
  sipRound w

def Words.result (w : Words) : BitVec 64 := w.v0^^^w.v1^^^w.v2^^^w.v3

def sipHash (m : Metadata) : Metadata :=
  { m with
    words := sipWords message keySrc keyDst
    oneTimePadSrc := (sipWords message keySrc keyDst).result.setWidth 32
    oneTimePadDst := ((sipWords message keySrc keyDst).result>>>32).setWidth 32 }
variable (keys : Keys) (version : BitVec 2)
def chooseKeys (m : Metadata) : Metadata :=
  if version=0 then
    { m with
      keySrc1 := keys.keySrc01
      keyDst1 := keys.keyDst01
      keySrc2 := keys.keySrc02
      keyDst2 := keys.keyDst02 }
  else if version=1 then
    { m with
      keySrc1 := keys.keySrc11
      keyDst1 := keys.keyDst11
      keySrc2 := keys.keySrc12
      keyDst2 := keys.keyDst12 }
  else
    { m with
      keySrc1 := keys.keySrc21
      keyDst1 := keys.keyDst21
      keySrc2 := keys.keySrc22
      keyDst2 := keys.keyDst22 }
variable (s : State)
def padAddrs : State :=
  let s := { s with md := sipHash (s.md.nonce.setWidth 64) s.md.keySrc1 s.md.keyDst1 s.md }
  { s with hdr.ipv4.srcAddr := s.hdr.ipv4.srcAddr^^^s.md.oneTimePadSrc
           hdr.ipv4.dstAddr := s.hdr.ipv4.dstAddr^^^s.md.oneTimePadDst }

def padTcp : State :=
  if s.hdr.tcpValid then
    let s := { s with md := sipHash (s.md.nonce.setWidth 64) s.md.keySrc2 s.md.keyDst2 s.md }
    { s with hdr.tcp.seqNo := s.hdr.tcp.seqNo^^^s.md.oneTimePadSrc
             hdr.tcp.ackNo := s.hdr.tcp.ackNo^^^s.md.oneTimePadDst }
  else s

/-- The part of `decrypt` that restores the IPv4 header, still under the pads, and reads the nonce. -/
def restoreIpv4 : State :=
  { s with
    hdr.ipv4Valid := true
    hdr.etherType := typeIpv4
    hdr.ipv4.srcAddr := (s.hdr.ipv6.srcAddr&&&0xFFFFFFFF).setWidth 32
    hdr.ipv4.dstAddr := (s.hdr.ipv6.dstAddr&&&0xFFFFFFFF).setWidth 32
    hdr.ipv4.version := versionIpv4
    hdr.ipv4.ihl := 5
    hdr.ipv4.totalLen := s.hdr.ipv6.length+20
    hdr.ipv4.protocol := s.hdr.ipv6.nextHeader
    hdr.ipv4.ttl := s.hdr.ipv6.hopLimit
    hdr.ipv4.diffserv := s.hdr.ipv6.trafficClass
    md.nonce := (s.hdr.ipv6.dstAddr>>>32).setWidth 30 }

def decrypt (s : State) : State :=
  let version : BitVec 2 := (s.hdr.ipv6.dstAddr>>>62).setWidth 2
  let s := { s with md := chooseKeys keys version s.md }
  let s := padTcp (padAddrs (restoreIpv4 s))
  { s with hdr.ipv6Valid := false }

def addIpv6 : State :=
  { s with
    hdr.ipv6Valid := true
    hdr.etherType := typeIpv6
    hdr.ipv6.dstAddr := s.md.newAddr+(s.md.version.setWidth 128<<<62) +
      (s.md.nonce.setWidth 128<<<32)+s.hdr.ipv4.dstAddr.setWidth 128
    hdr.ipv6.srcAddr := s.md.newAddr+(s.md.nonce.setWidth 128<<<32) + s.hdr.ipv4.srcAddr.setWidth 128
    hdr.ipv6.version := versionIpv6
    hdr.ipv6.length := s.hdr.ipv4.totalLen-20
    hdr.ipv6.nextHeader := s.hdr.ipv4.protocol
    hdr.ipv6.hopLimit := s.hdr.ipv4.ttl
    hdr.ipv6.trafficClass := s.hdr.ipv4.diffserv }

def encrypt (nonce : BitVec 30) (s : State) : State :=
  let s := { s with md.version := version }
  let s := { s with md := chooseKeys keys version s.md }
  let s := { s with md.nonce := nonce }
  let s := addIpv6 (padTcp (padAddrs s))
  { s with hdr.ipv4Valid := false }
section Packing
variable {addr : BitVec 128} (version : BitVec 2) (nonce : BitVec 30) (host : BitVec 32) (haddr : addr.setWidth 64=0#64)
include haddr
private theorem toNat_pack : ∃ q, (addr+(version.setWidth 128<<<62)+(nonce.setWidth 128<<<32) +
      host.setWidth 128).toNat = q*2^64+version.toNat*2^62+nonce.toNat*2^32+host.toNat := by
  have hlow : addr.toNat%2^64=0 := by
    have h := congrArg BitVec.toNat haddr
    rwa [toNat_setWidth] at h
  refine ⟨addr.toNat/2^64,?_⟩
  simp only [toNat_add,toNat_shiftLeft,toNat_setWidth,Nat.shiftLeft_eq]
  omega

theorem unpack_pack : let packed := addr+(version.setWidth 128<<<62)+(nonce.setWidth 128<<<32)+host.setWidth 128
    (packed>>>62).setWidth 2=version ∧ (packed>>>32).setWidth 30=nonce ∧
      (packed&&&0xFFFFFFFF).setWidth 32=host := by
  obtain ⟨q,hq⟩ := toNat_pack version nonce host haddr
  have hmask : (0xFFFFFFFF : BitVec 128).toNat=2^32-1 := rfl
  refine ⟨eq_of_toNat_eq ?_,eq_of_toNat_eq ?_,eq_of_toNat_eq ?_⟩
  · rw [toNat_setWidth,toNat_ushiftRight,hq,Nat.shiftRight_eq_div_pow]
    omega
  · rw [toNat_setWidth,toNat_ushiftRight,hq,Nat.shiftRight_eq_div_pow]
    omega
  · rw [toNat_setWidth,toNat_and,hmask,Nat.and_two_pow_sub_one_eq_mod,hq]
    omega

theorem host_pack_src : ((addr+(nonce.setWidth 128<<<32)+host.setWidth 128)&&&0xFFFFFFFF).setWidth 32 = host := by
  have h := (unpack_pack 0#2 nonce host haddr).2.2
  simpa using h
end Packing
section Pads
variable (keys : Keys) (version : BitVec 2) (nonce : BitVec 30)
def addrPads : BitVec 32 × BitVec 32 :=
  let m := chooseKeys keys version default
  let m := sipHash (nonce.setWidth 64) m.keySrc1 m.keyDst1 m
  (m.oneTimePadSrc,m.oneTimePadDst)

def tcpPads : BitVec 32 × BitVec 32 :=
  let m := chooseKeys keys version default
  let m := sipHash (nonce.setWidth 64) m.keySrc2 m.keyDst2 m
  (m.oneTimePadSrc,m.oneTimePadDst)

structure Keyed (m : Metadata) : Prop where
  keySrc1 : m.keySrc1=(chooseKeys keys version default).keySrc1
  keyDst1 : m.keyDst1=(chooseKeys keys version default).keyDst1
  keySrc2 : m.keySrc2=(chooseKeys keys version default).keySrc2
  keyDst2 : m.keyDst2=(chooseKeys keys version default).keyDst2
  nonce : m.nonce=nonce

theorem keyed_chooseKeys (m : Metadata) :
    Keyed keys version nonce { chooseKeys keys version m with nonce := nonce } := by
  constructor <;> simp only [chooseKeys] <;> split_ifs <;> rfl
variable {keys version nonce} {s : State}
section
variable (h : Keyed keys version nonce s.md)
include h
theorem padAddrs_ipv4 : (padAddrs s).hdr.ipv4 =
      { s.hdr.ipv4 with
        srcAddr := s.hdr.ipv4.srcAddr^^^(addrPads keys version nonce).1
        dstAddr := s.hdr.ipv4.dstAddr^^^(addrPads keys version nonce).2 } := by
  simp only [padAddrs,h.keySrc1,h.keyDst1,h.nonce]
  rfl

theorem Keyed.padAddrs : Keyed keys version nonce (padAddrs s).md :=
  ⟨h.keySrc1,h.keyDst1,h.keySrc2,h.keyDst2,h.nonce⟩

theorem padTcp_tcp (htcp : s.hdr.tcpValid) : (padTcp s).hdr.tcp =
      { s.hdr.tcp with
        seqNo := s.hdr.tcp.seqNo^^^(tcpPads keys version nonce).1
        ackNo := s.hdr.tcp.ackNo^^^(tcpPads keys version nonce).2 } := by
  rw [padTcp,if_pos htcp]
  simp only [h.keySrc2,h.keyDst2,h.nonce]
  rfl
end

theorem padTcp_frame (s : State) : (padTcp s).hdr.ipv4=s.hdr.ipv4 ∧ (padTcp s).hdr.ipv6=s.hdr.ipv6 ∧
      (padTcp s).hdr.tcpValid=s.hdr.tcpValid ∧ (padTcp s).md.nonce=s.md.nonce ∧
      (padTcp s).md.version=s.md.version ∧ (padTcp s).md.newAddr=s.md.newAddr := by
  unfold padTcp
  split_ifs <;> exact ⟨rfl,rfl,rfl,rfl,rfl,rfl⟩
end Pads

def State.receive (wire : Headers) : State :=
  { s with
    hdr.etherType := wire.etherType
    hdr.ipv4Valid := false
    hdr.ipv6Valid := true
    hdr.ipv6 := wire.ipv6
    hdr.tcpValid := decide (wire.ipv6.nextHeader=typeTcp)
    hdr.tcp := if wire.ipv6.nextHeader=typeTcp then wire.tcp else s.hdr.tcp }

structure Restores (sent got : Headers) : Prop where
  etherType : got.etherType=typeIpv4
  ipv4Valid : got.ipv4Valid
  ipv6Valid : got.ipv6Valid=false
  srcAddr : got.ipv4.srcAddr=sent.ipv4.srcAddr
  dstAddr : got.ipv4.dstAddr=sent.ipv4.dstAddr
  totalLen : got.ipv4.totalLen=sent.ipv4.totalLen
  protocol : got.ipv4.protocol=sent.ipv4.protocol
  ttl : got.ipv4.ttl=sent.ipv4.ttl
  diffserv : got.ipv4.diffserv=sent.ipv4.diffserv
  tcpValid : got.tcpValid=sent.tcpValid
  seqNo : sent.tcpValid → got.tcp.seqNo=sent.tcp.seqNo
  ackNo : sent.tcpValid → got.tcp.ackNo=sent.tcp.ackNo
section RoundTrip
variable (keys : Keys) (version : BitVec 2) (nonce : BitVec 30)
private theorem chooseKeys_frame (m : Metadata) : (chooseKeys keys version m).newAddr=m.newAddr ∧
      (chooseKeys keys version m).version=m.version := by
  unfold chooseKeys
  split_ifs <;> exact ⟨rfl,rfl⟩
variable (s : State)
private def keyed : State :=
  { s with md := { chooseKeys keys version { s.md with version := version } with nonce := nonce } }

private theorem keyed_md : Keyed keys version nonce (keyed keys version nonce s).md ∧
      (keyed keys version nonce s).md.newAddr=s.md.newAddr ∧
      (keyed keys version nonce s).md.version=version := by
  obtain ⟨haddr,hversion⟩ := chooseKeys_frame keys version { s.md with version := version }
  exact ⟨keyed_chooseKeys keys version nonce _,haddr,hversion⟩

private theorem encrypt_ipv6 : (encrypt keys version nonce s).hdr.ipv6 =
      { s.hdr.ipv6 with
        dstAddr := s.md.newAddr+(version.setWidth 128<<<62)+(nonce.setWidth 128<<<32) +
          (s.hdr.ipv4.dstAddr^^^(addrPads keys version nonce).2).setWidth 128
        srcAddr := s.md.newAddr+(nonce.setWidth 128<<<32) +
          (s.hdr.ipv4.srcAddr^^^(addrPads keys version nonce).1).setWidth 128
        version := versionIpv6
        length := s.hdr.ipv4.totalLen-20
        nextHeader := s.hdr.ipv4.protocol
        hopLimit := s.hdr.ipv4.ttl
        trafficClass := s.hdr.ipv4.diffserv } := by
  obtain ⟨hkeyed,haddr,hversion⟩ := keyed_md keys version nonce s
  obtain ⟨hipv4,hipv6,-,hnonce',hversion',haddr'⟩ := padTcp_frame (padAddrs (keyed keys version nonce s))
  change (padAddrs (keyed keys version nonce s)).md.newAddr=_ at haddr
  change (padAddrs (keyed keys version nonce s)).md.version=_ at hversion
  change (addIpv6 (padTcp (padAddrs (keyed keys version nonce s)))).hdr.ipv6=_
  simp only [addIpv6]
  rw [hipv4,hipv6,hnonce',hversion',haddr',padAddrs_ipv4 hkeyed,haddr,hversion]
  rfl

private theorem encrypt_tcp (htcp : s.hdr.tcpValid) : (encrypt keys version nonce s).hdr.tcp =
      { s.hdr.tcp with
        seqNo := s.hdr.tcp.seqNo^^^(tcpPads keys version nonce).1
        ackNo := s.hdr.tcp.ackNo^^^(tcpPads keys version nonce).2 } := by
  exact padTcp_tcp (keyed_md keys version nonce s).1.padAddrs htcp
variable {version nonce} {r : State}
private def restored (version : BitVec 2) (r : State) : State :=
  restoreIpv4 { r with md := chooseKeys keys version r.md }

private theorem decrypt_eq (hversion : (r.hdr.ipv6.dstAddr>>>62).setWidth 2=version) : (decrypt keys r).hdr =
      { (padTcp (padAddrs (restored keys version r))).hdr with ipv6Valid := false } := by
  rw [← hversion]
  rfl

private theorem restored_md (version : BitVec 2) (hnonce : (r.hdr.ipv6.dstAddr>>>32).setWidth 30=nonce) :
    Keyed keys version nonce (restored keys version r).md := by
  have h := keyed_chooseKeys keys version nonce r.md
  exact { h with nonce := hnonce }
section
variable (hversion : (r.hdr.ipv6.dstAddr>>>62).setWidth 2=version) (hnonce : (r.hdr.ipv6.dstAddr>>>32).setWidth 30=nonce)
include hversion hnonce
private theorem decrypt_ipv4 : (decrypt keys r).hdr.ipv4 =
      { r.hdr.ipv4 with
        srcAddr := (r.hdr.ipv6.srcAddr&&&0xFFFFFFFF).setWidth 32^^^(addrPads keys version nonce).1
        dstAddr := (r.hdr.ipv6.dstAddr&&&0xFFFFFFFF).setWidth 32^^^(addrPads keys version nonce).2
        version := versionIpv4
        ihl := 5
        totalLen := r.hdr.ipv6.length+20
        protocol := r.hdr.ipv6.nextHeader
        ttl := r.hdr.ipv6.hopLimit
        diffserv := r.hdr.ipv6.trafficClass } := by
  rw [decrypt_eq keys hversion]
  rw [(padTcp_frame _).1,padAddrs_ipv4 (restored_md keys version hnonce)]
  rfl

private theorem decrypt_tcp (htcp : r.hdr.tcpValid) : (decrypt keys r).hdr.tcp =
      { r.hdr.tcp with
        seqNo := r.hdr.tcp.seqNo^^^(tcpPads keys version nonce).1
        ackNo := r.hdr.tcp.ackNo^^^(tcpPads keys version nonce).2 } := by
  have hkeyed := (restored_md keys version hnonce).padAddrs
  have hvalid : (padAddrs (restored keys version r)).hdr.tcpValid := htcp
  rw [decrypt_eq keys hversion]
  exact padTcp_tcp hkeyed hvalid
end

private theorem decrypt_valid (r : State) : (decrypt keys r).hdr.etherType=typeIpv4 ∧ (decrypt keys r).hdr.ipv4Valid ∧
      (decrypt keys r).hdr.ipv6Valid=false ∧
      (decrypt keys r).hdr.tcpValid=r.hdr.tcpValid := by
  rw [decrypt_eq keys rfl]
  unfold padTcp
  split_ifs <;> exact ⟨rfl,rfl,rfl,rfl⟩

private theorem xor_xor_self (x pad : BitVec 32) : x^^^pad^^^pad=x := by
  rw [BitVec.xor_assoc,BitVec.xor_self,BitVec.xor_zero]

/-- Decrypting what another switch has encrypted under the same keys gives the packet back. The
packet is as the parser accepts it, with a TCP header exactly if the protocol says so. -/
theorem decrypt_encrypt (keys : Keys) (version : BitVec 2) (nonce : BitVec 30) (sender receiver : State)
    (hparsed : sender.hdr.tcpValid=decide (sender.hdr.ipv4.protocol=typeTcp))
    (haddr : sender.md.newAddr.setWidth 64=0#64) :
    Restores sender.hdr (decrypt keys (receiver.receive (encrypt keys version nonce sender).hdr)).hdr := by
  have hipv6 := encrypt_ipv6 keys version nonce sender
  set r := receiver.receive (encrypt keys version nonce sender).hdr
  have hwire : r.hdr.ipv6=(encrypt keys version nonce sender).hdr.ipv6 := rfl
  have hnext : (encrypt keys version nonce sender).hdr.ipv6.nextHeader = sender.hdr.ipv4.protocol := by rw [hipv6]
  have hversion : (r.hdr.ipv6.dstAddr>>>62).setWidth 2=version := by
    rw [hwire,hipv6]
    exact (unpack_pack version nonce _ haddr).1
  have hnonce : (r.hdr.ipv6.dstAddr>>>32).setWidth 30=nonce := by
    rw [hwire,hipv6]
    exact (unpack_pack version nonce _ haddr).2.1
  have htcpValid : r.hdr.tcpValid=sender.hdr.tcpValid := by
    rw [hparsed,← hnext]
    rfl
  have hipv4 := decrypt_ipv4 keys hversion hnonce
  rw [hwire,hipv6] at hipv4
  obtain ⟨hether,hvalid4,hvalid6,hvalidTcp⟩ := decrypt_valid keys r
  have htcp (h : sender.hdr.tcpValid) : (decrypt keys r).hdr.tcp=sender.hdr.tcp := by
    have hprotocol : (encrypt keys version nonce sender).hdr.ipv6.nextHeader=typeTcp := by
      rw [hnext]
      simpa [h] using hparsed
    have hgot : r.hdr.tcp=(encrypt keys version nonce sender).hdr.tcp := if_pos hprotocol
    rw [decrypt_tcp keys hversion hnonce (htcpValid.trans h),hgot,encrypt_tcp keys version nonce sender h]
    simp only [xor_xor_self]
  exact
    { etherType := hether
      ipv4Valid := hvalid4
      ipv6Valid := hvalid6
      srcAddr := by simp only [hipv4,host_pack_src nonce _ haddr,xor_xor_self]
      dstAddr := by simp only [hipv4,(unpack_pack version nonce _ haddr).2.2,xor_xor_self]
      totalLen := by simp only [hipv4,BitVec.sub_add_cancel]
      protocol := by rw [hipv4]
      ttl := by rw [hipv4]
      diffserv := by rw [hipv4]
      tcpValid := hvalidTcp.trans htcpValid
      seqNo := fun h => by rw [htcp h]
      ackNo := fun h => by rw [htcp h] }

def segment : State :=
  { (default : State) with
    hdr.ipv4Valid := true
    hdr.ipv4.srcAddr := 0x0a000001
    hdr.ipv4.dstAddr := 0x0a000102
    hdr.ipv4.totalLen := 60
    hdr.ipv4.ttl := 64
    hdr.ipv4.protocol := typeTcp
    hdr.tcpValid := true
    hdr.tcp.seqNo := 0x1000
    hdr.tcp.ackNo := 0x2000
    md.newAddr := 0x20010db8000000000000000000000000 }

theorem segment_restored : Restores segment.hdr
      (decrypt default ((default : State).receive (encrypt default 3 0x2abcdef segment).hdr)).hdr :=
  decrypt_encrypt default 3 0x2abcdef segment default (by decide) (by decide)
end RoundTrip
end P4Benchmarks.Spine
