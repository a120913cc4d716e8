import P4Benchmarks.Aes.Tables
import P4Benchmarks.Lib.Aes
/-!
# AES with lookup tables and XOR

The ingress pipeline encrypts one block. The four words `r0` to `r3` are the columns of the cipher's
state; in every round the tables add their values to the accumulators `t0` to `t3`.
-/
namespace P4Benchmarks.Aes
open Lib.Aes (byteOf wordOf columnOf blockOf)
structure AesMeta where
  (r t : Fin 4 → BitVec 32)
namespace AesMeta
variable (m : AesMeta) (value : BitVec 128)
def readCleartext : AesMeta := { m with t := columnOf value }

def maskKey (key128 : BitVec 128) (m : AesMeta) : AesMeta :=
  { m with r := fun i => m.t i^^^columnOf key128 i }

def writeCiphertext : BitVec 128 := blockOf m.r
def newRound : AesMeta := { m with t := fun _ => 0 }
def setT (T : Fin 4) (word : BitVec 32) : AesMeta := { m with t := Function.update m.t T word }
def mergeTo (T : Fin 4) (m : AesMeta) (val : BitVec 32) : AesMeta := m.setT T (m.t T^^^val)

def mergeToPartial (T slice : Fin 4) (m : AesMeta) (val : BitVec 8) : AesMeta :=
  m.setT T (wordOf (Function.update (byteOf (m.t T)) slice (byteOf (m.t T) slice^^^val)))

/-- A table that matches a slice of `r` exactly; a miss does nothing. -/
def tableLut {n : Nat} (reg slice : Fin 4) (entries : List (BitVec n))
    (write : AesMeta → BitVec n → AesMeta) (m : AesMeta) : AesMeta :=
  match entries[(byteOf (m.r reg) slice).toNat]? with
  | some val => write m val
  | none => m

def lut00 := tableLut 0 0 genLut0 (mergeTo 0)
def lut01 := tableLut 1 1 genLut1 (mergeTo 0)
def lut02 := tableLut 2 2 genLut2 (mergeTo 0)
def lut03 := tableLut 3 3 genLut3 (mergeTo 0)
def lut10 := tableLut 1 0 genLut0 (mergeTo 1)
def lut11 := tableLut 2 1 genLut1 (mergeTo 1)
def lut12 := tableLut 3 2 genLut2 (mergeTo 1)
def lut13 := tableLut 0 3 genLut3 (mergeTo 1)
def lut20 := tableLut 2 0 genLut0 (mergeTo 2)
def lut21 := tableLut 3 1 genLut1 (mergeTo 2)
def lut22 := tableLut 0 2 genLut2 (mergeTo 2)
def lut23 := tableLut 1 3 genLut3 (mergeTo 2)
def lut30 := tableLut 3 0 genLut0 (mergeTo 3)
def lut31 := tableLut 0 1 genLut1 (mergeTo 3)
def lut32 := tableLut 1 2 genLut2 (mergeTo 3)
def lut33 := tableLut 2 3 genLut3 (mergeTo 3)

def applyAllTableLut : AesMeta :=
  [lut00,lut01,lut02,lut03,lut10,lut11,lut12,lut13,
    lut20,lut21,lut22,lut23,lut30,lut31,lut32,lut33].foldl (fun m table => table m) m

def lutLast00 := tableLut 0 0 genLutSbox (mergeToPartial 0 0)
def lutLast01 := tableLut 1 1 genLutSbox (mergeToPartial 0 1)
def lutLast02 := tableLut 2 2 genLutSbox (mergeToPartial 0 2)
def lutLast03 := tableLut 3 3 genLutSbox (mergeToPartial 0 3)
def lutLast10 := tableLut 1 0 genLutSbox (mergeToPartial 1 0)
def lutLast11 := tableLut 2 1 genLutSbox (mergeToPartial 1 1)
def lutLast12 := tableLut 3 2 genLutSbox (mergeToPartial 1 2)
def lutLast13 := tableLut 0 3 genLutSbox (mergeToPartial 1 3)
def lutLast20 := tableLut 2 0 genLutSbox (mergeToPartial 2 0)
def lutLast21 := tableLut 3 1 genLutSbox (mergeToPartial 2 1)
def lutLast22 := tableLut 0 2 genLutSbox (mergeToPartial 2 2)
def lutLast23 := tableLut 1 3 genLutSbox (mergeToPartial 2 3)
def lutLast30 := tableLut 3 0 genLutSbox (mergeToPartial 3 0)
def lutLast31 := tableLut 0 1 genLutSbox (mergeToPartial 3 1)
def lutLast32 := tableLut 1 2 genLutSbox (mergeToPartial 3 2)
def lutLast33 := tableLut 2 3 genLutSbox (mergeToPartial 3 3)

def applyAllTableLutLast : AesMeta :=
  [lutLast00,lutLast01,lutLast02,lutLast03,lutLast10,lutLast11,lutLast12,lutLast13,
    lutLast20,lutLast21,lutLast22,lutLast23,lutLast30,lutLast31,lutLast32,
    lutLast33].foldl (fun m table => table m) m

def maskKeys : List (BitVec 128) :=
  [0x01010101020202020303030304040404,0xf2f3f3f3f0f1f1f1f3f2f2f2f7f6f6f6,0xb2b1b19b4240406ab1b2b2984644446e,
   0xadaa2ec1efea6eab5e58dc33181c985d,
   0x39ec626cd6060cc7885ed0f4904248a9,
   0x5beb10cd3b8bdcb5be66d3fcba42596,
   0x6c812113bf399cd8e4dff1e72f7bd471,
   0xdc98206b2f01ede562fef3979543b48,
   0xad2bd0b01fdbce6e49f4215730a01a1f,
   0x568910b44952deda00a6ff8d3006e592,
   0xf505fb04602816a46a47ee776a29b75]

def applyMaskKey (round : Nat) : AesMeta → AesMeta := maskKey (maskKeys.getD round 0)
def round (n : Nat) (m : AesMeta) : AesMeta := applyMaskKey n (applyAllTableLut m.newRound)
def lastRound : AesMeta := applyMaskKey 10 (applyAllTableLutLast m.newRound)

def encrypt : AesMeta :=
  lastRound ([1,2,3,4,5,6,7,8,9].foldl (fun m n => round n m) (applyMaskKey 0 (m.readCleartext value)))
end AesMeta

structure AesInout where
  value : BitVec 128
  ff : BitVec 8

structure Headers where
  (dstAddr srcAddr : BitVec 48)
  etherType : BitVec 16
  aesInout : Option AesInout
  copy : Option (BitVec 64)

def copyrightString : BitVec 64 := 0xA9204147504c7633

def reflect (hdr : Headers) : Headers :=
  { hdr with dstAddr := hdr.srcAddr, srcAddr := hdr.dstAddr, copy := some copyrightString }

def ingress (hdr : Headers) (aesMeta : AesMeta) (ingressPort : BitVec 9) : Option (Headers × BitVec 9) :=
  match hdr.aesInout with
  | some aesInout =>
    if aesInout.ff=0xFF then
      some (reflect { hdr with
        aesInout := some { aesInout with
          value := (aesMeta.encrypt aesInout.value).writeCiphertext } },ingressPort)
    else none
  | none => none
end P4Benchmarks.Aes
