import P4Benchmarks.Lib.Bytes
/-!
# P4-IPsec: the ESP functions of the switch

`ExternCrypt` of `simple_switch.cpp` on the bytes of a packet. Data that makes the C++ code read
outside its vectors or ask for a vector of negative size gives no result.
-/
namespace P4Benchmarks.Ipsec
open Lib
structure Ipv4 where
  (version ihl : BitVec 4)
  diffserv : BitVec 8
  (totalLen identification : BitVec 16)
  flags : BitVec 3
  fragOffset : BitVec 13
  (ttl protocol : BitVec 8)
  hdrChecksum : BitVec 16
  (srcAddr dstAddr : BitVec 32)
deriving DecidableEq

structure Esp where
  (spi sequenceNumber : BitVec 32)
deriving DecidableEq

def Esp.bytes (esp : Esp) : List Byte := fieldBytes 4 esp.spi++fieldBytes 4 esp.sequenceNumber

def Ipv4.bytes (h : Ipv4) : List Byte :=
  let version := h.version.setWidth 8
  let ihl := h.ihl.setWidth 8
  let flags := h.flags.setWidth 8
  let fragOffset0 : Byte := (h.fragOffset>>>8).setWidth 8
  let fragOffset1 : Byte := h.fragOffset.setWidth 8
  [version<<<4|||ihl&&&15]++fieldBytes 1 h.diffserv++fieldBytes 2 h.totalLen ++ fieldBytes 2 h.identification ++
    [flags<<<5|||fragOffset0>>>3&&&31,fragOffset0<<<5|||fragOffset1>>>3&&&31] ++
    fieldBytes 1 h.ttl++fieldBytes 1 h.protocol++fieldBytes 2 h.hdrChecksum ++
    fieldBytes 4 h.srcAddr++fieldBytes 4 h.dstAddr
variable (data : List Byte)
def Ipv4.ofBytes : Ipv4 where
  version := (data.getD 0 0>>>4&&&15).setWidth 4
  ihl := (data.getD 0 0&&&15).setWidth 4
  diffserv := fieldAt 8 data 1 1
  totalLen := fieldAt 16 data 2 2
  identification := fieldAt 16 data 4 2
  flags := (data.getD 6 0>>>5&&&7).setWidth 3
  fragOffset := fieldAt 13 [(data.getD 6 0&&&31)<<<3|||data.getD 7 0>>>5&&&7,data.getD 7 0&&&31] 0 2
  ttl := fieldAt 8 data 8 1
  protocol := fieldAt 8 data 9 1
  hdrChecksum := fieldAt 16 data 10 2
  srcAddr := fieldAt 32 data 12 4
  dstAddr := fieldAt 32 data 16 4

/-- What comes from OpenSSL: AES of a block of 16 bytes, and HMAC with MD5. The key is the first
argument of both. -/
structure Primitives where
  (aes hmac : List Byte → List Byte → List Byte)

def padKey (n : Nat) (key : List Byte) : List Byte :=
  if key.length<n then List.replicate (n-key.length) 0++key else key.take n

def counterBlock (nonce iv : List Byte) : List Byte := nonce++iv++[0,0,0,1]
variable (P : Primitives)
/-- `crypt_message`: the counter block is incremented as one number of 128 bits. -/
def cryptMessage (key iv src : List Byte) : List Byte :=
  src.mapIdx fun i b => b^^^(P.aes key (beBytes 16 (ofBe iv+i/16))).getD (i%16) 0

def receivedIcv : List Byte := data.drop (data.length-12)

def computedHmac (keyHmac : List Byte) (esp : Esp) (data : List Byte) : List Byte :=
  P.hmac (padKey 16 keyHmac) (esp.bytes++data.take (data.length-12))

def icvMismatch (keyHmac : List Byte) (esp : Esp) (data : List Byte) : Bool :=
  let hmac := computedHmac P keyHmac esp data
  hmac.length != 16 || hmac.take 12 != receivedIcv data
variable (key data : List Byte)
def decrypted : List Byte :=
  let keyNonce := padKey 20 key
  let ivComplete := counterBlock (keyNonce.drop 16) (data.take 8)
  cryptMessage P (keyNonce.take 16) ivComplete ((data.drop 8).take (data.length-20))

def payloadSize (decrypted : List Byte) : Int :=
  decrypted.length-2-(decrypted.getD (decrypted.length-2) 0).toInt

def Decryptable : Prop :=
  22≤data.length ∧ 20≤payloadSize (decrypted P key data) ∧
    payloadSize (decrypted P key data)≤(decrypted P key data).length

instance (P : Primitives) (key data : List Byte) : Decidable (Decryptable P key data) :=
  inferInstanceAs (Decidable (_ ∧ _ ∧ _))

def decryptAesCtr (key keyHmac : List Byte) (esp : Esp) (data : List Byte) : Option (Ipv4 × Bool × List Byte) :=
  if Decryptable P key data then
    let payload := (decrypted P key data).take (payloadSize (decrypted P key data)).toNat
    some (.ofBytes payload,icvMismatch P keyHmac esp data,payload.drop 20)
  else none

/-- `encrypt_aes_ctr` with the initialization vector `iv` from the random generator: the IPv4 header
with its new length, and the new payload. -/
def encryptAesCtr (iv key keyHmac : List Byte) (ipv4 : Ipv4) (esp : Esp) (data : List Byte) : Ipv4 × List Byte :=
  let keyNonce := padKey 20 key
  let raw := ipv4.bytes++data
  let padding := if raw.length%16≠0 then 16-raw.length%16 else 0
  let raw := raw++List.replicate padding 0++[BitVec.ofNat 8 padding,4]
  let ivComplete := counterBlock (keyNonce.drop 16) iv
  let payload := iv++cryptMessage P (keyNonce.take 16) ivComplete raw
  let icv := (P.hmac (padKey 16 keyHmac) (esp.bytes++payload)).take 12
  let payload := payload++icv
  ({ ipv4 with totalLen := .ofNat 16 (payload.length+28) },payload)

def decryptNull : Option (Ipv4 × List Byte) :=
  if 22≤data.length then some (.ofBytes data,(data.drop 20).take (data.length-22))
  else none

def encryptNull (ipv4 : Ipv4) (data : List Byte) : Ipv4 × List Byte :=
  let raw := ipv4.bytes++data++[0,4]
  ({ ipv4 with totalLen := .ofNat 16 (raw.length+28) },raw)
end P4Benchmarks.Ipsec
