import Mathlib.Data.Fin.VecNotation
import P4Benchmarks.Aes.Tables
import P4Benchmarks.Lib.Aes
/-!
# Two rounds in a pass

`toolbox.py` and `aes_tworound.py` make the entries: the key schedule, and lookup tables whose keys are
scrambled by the bytes of a round key.  `aes_tworound.p4` recirculates a packet until the last round; the
payload is what follows the UDP header.
-/
namespace P4Benchmarks.AesTofino
open Lib.Aes (Byte)
open scoped Lib.Aes
def sboxTable : List Byte := Aes.genLutSbox
def te0 : List (BitVec 32) := Aes.genLut0
def te1 : List (BitVec 32) := Aes.genLut1
def te2 : List (BitVec 32) := Aes.genLut2
def te3 : List (BitVec 32) := Aes.genLut3

def rconTable : List Byte :=
  [0x00,0x01,0x02,0x04,0x08,0x10,0x20,0x40,0x80,0x1B,0x36,0x6C,0xD8,0xAB,0x4D,0x9A,
    0x2F,0x5E,0xBC,0x63,0xC6,0x97,0x35,0x6A,
    0xD4,0xB3,0x7D,0xFA,0xEF,0xC5,0x91,0x39]

abbrev Word := Vector Byte 4

def text2matrix (text : BitVec 128) : List Word :=
  [0,1,2,3].map fun (w : Nat) =>
    Vector.ofFn fun j => text.extractLsb' (8*(15-(4*w+j.val))) 8
variable (roundKeys : List Word)
def wordAt (i : Nat) : Word := roundKeys.getD i (Vector.replicate 4 0)

def nextWord (i : Nat) : Word :=
  let before := wordAt roundKeys (i-4)
  let last := wordAt roundKeys (i-1)
  if i%4=0 then Vector.ofFn fun j =>
    if j=0 then before.get 0^^^sboxTable.getD (last.get 1).toNat 0^^^rconTable.getD (i/4) 0
    else before.get j^^^sboxTable.getD (last.get (j+1)).toNat 0
  else Vector.ofFn fun j => before.get j^^^last.get j

def expandKey (key : BitVec 128) : List Word :=
  (List.range' 4 40).foldl (fun roundKeys i => roundKeys++[nextWord roundKeys i]) (text2matrix key)

structure ScrambledLookupTable where
  xorval : Byte
  lut : List (BitVec 32)

def ScrambledLookupTable.dump (t : ScrambledLookupTable) : List (Byte × BitVec 32) :=
  (List.range 256).map fun idx => (BitVec.ofNat 8 idx^^^t.xorval,t.lut.getD idx 0)

def xorIndex : Fin 4 → Fin 4 → Fin 4 × Fin 4 :=
  ![![(0,0),(1,1),(2,2),(3,3)],![(1,0),(2,1),(3,2),(0,3)],![(2,0),(3,1),(0,2),(1,3)],![(3,0),(0,1),(1,2),(2,3)]]
variable (expandedKey : List Word)
def scrambled (b : Nat) (tables : Fin 4 → List (BitVec 32)) (lutR lutC : Fin 4) : ScrambledLookupTable :=
  let (i,j) := xorIndex lutR lutC
  ⟨(wordAt expandedKey (b+i.val)).get j,tables lutC⟩

def shiftedSbox (shift : Nat) : List (BitVec 32) :=
  sboxTable.map fun i => BitVec.shiftLeft (i.zeroExtend 32) shift

def lastTables : Fin 4 → List (BitVec 32) := ![shiftedSbox 24,shiftedSbox 16,shiftedSbox 8,shiftedSbox 0]

def generateLUT (rndNum : Nat) : Option (Fin 4 → Fin 4 → ScrambledLookupTable) :=
  if 1 ≤ rndNum ∧ rndNum<10 then some (scrambled expandedKey (rndNum*4-4) ![te0,te1,te2,te3])
  else if rndNum=10 then some (scrambled expandedKey 36 lastTables)
  else none

def finalXORvect : Fin 4 → Word := fun i => wordAt expandedKey (40+i.val)

def rules : List ((Fin 4 × Fin 4) × Fin 4 × Fin 4) :=
  [((0,0),0,0),((0,1),1,1),((0,2),2,2),((0,3),3,3),((1,0),1,0),((1,1),2,1),((1,2),3,2),((1,3),0,3),
    ((2,0),2,0),((2,1),3,1),((2,2),0,2),((2,3),1,3),
    ((3,0),3,0),((3,1),0,1),((3,2),1,2),((3,3),2,3)]

/-- The entries of a lookup table for the byte `s r c`: the key byte, the round and the value.  The
first table of a pass uses `LUTs[rndNum]`, the second one `LUTs[rndNum + 1]`. -/
def lookupEntries (second : Nat) (r c : Fin 4) : List ((Byte × Byte) × BitVec 32) :=
  [1,3,5,7,9].flatMap fun rndNum =>
    match generateLUT expandedKey (rndNum+second) with
    | none => []
    | some luts =>
      (rules.filter fun rule => rule.2=(r,c)).flatMap fun rule =>
        (luts rule.1.1 rule.1.2).dump.map fun e => ((e.1,.ofNat 8 (rndNum-1)),e.2)

inductive RecircAction where
  | incrAndRecirc (nextRound : Byte)
  | doNotRecirc
  | doNotRecircFinalXor (s : Fin 4 → Word)

def recircEntries : List (Byte × RecircAction) :=
  ([1,3,5,7].map fun (rndNum : Nat) =>
    let currRound := rndNum-1
    (BitVec.ofNat 8 currRound,RecircAction.incrAndRecirc (.ofNat 8 (currRound+2)))) ++
  [(8,.doNotRecircFinalXor (finalXORvect expandedKey))]

open Lib.Aes (Byte byteOf)
open scoped Lib.Aes
def aesPort : BitVec 16 := 5555
def copyrightString : BitVec 64 := 0xA9204147504c7633

structure Udp where
  (dstPort udpTotalLen checksum : BitVec 16)
deriving DecidableEq

structure Packet where
  totalLen : BitVec 16
  udp : Option Udp
  payload : List Byte
deriving DecidableEq

abbrev AesInout := Fin 4 → Fin 4 → Byte

structure AesMeta where
  destPort : BitVec 16
  (currRound ff : Byte)
deriving DecidableEq

structure Headers where
  totalLen : BitVec 16
  udp : Option Udp
  aes : Option AesInout
  aesMeta : Option AesMeta
  copy : Option (BitVec 64)

def extractAes : List Byte → Option (AesInout × List Byte)
  | s00::s01::s02::s03::s10::s11::s12::s13 ::
    s20::s21::s22::s23::s30::s31::s32::s33::rest =>
    some (![![s00,s01,s02,s03],![s10,s11,s12,s13],![s20,s21,s22,s23],![s30,s31,s32,s33]],rest)
  | _ => none

def extractAesMeta : List Byte → Option (AesMeta × List Byte)
  | high::low::currRound::ff::rest => some (⟨high++low,currRound,ff⟩,rest)
  | _ => none

def parse (pkt : Packet) : Option (Headers × List Byte) :=
  match pkt.udp with
  | none => some (⟨pkt.totalLen,none,none,none,none⟩,pkt.payload)
  | some udp =>
    if udp.dstPort=aesPort then do
      let (aes,rest) ← extractAes pkt.payload
      pure (⟨pkt.totalLen,some udp,some aes,none,none⟩,rest)
    else if udp.dstPort=aesPort+1 then do
      let (aes,rest) ← extractAes pkt.payload
      let (aesMeta,rest) ← extractAesMeta rest
      pure (⟨pkt.totalLen,some udp,some aes,some aesMeta,none⟩,rest)
    else some (⟨pkt.totalLen,some udp,none,none,none⟩,pkt.payload)

def emitAes (s : AesInout) : List Byte :=
  [s 0 0,s 0 1,s 0 2,s 0 3,s 1 0,s 1 1,s 1 2,s 1 3,s 2 0,s 2 1,s 2 2,s 2 3,s 3 0,s 3 1,s 3 2,s 3 3]

def emitAesMeta (m : AesMeta) : List Byte :=
  [m.destPort.extractLsb' 8 8,m.destPort.extractLsb' 0 8,m.currRound,m.ff]

def emitCopy (copy : BitVec 64) : List Byte := [7,6,5,4,3,2,1,0].map fun i => copy.extractLsb' (8*i) 8

def deparse (hdr : Headers) (rest : List Byte) : Packet where
  totalLen := hdr.totalLen
  udp := hdr.udp
  payload := (hdr.aes.map emitAes).getD []++(hdr.aesMeta.map emitAesMeta).getD [] ++
    (hdr.copy.map emitCopy).getD []++rest

structure Tables where
  (tbLookupT tbLookupT2r : Fin 4 → Fin 4 → List ((Byte × Byte) × BitVec 32))
  tbRecircDecision : List (Byte × RecircAction)

def addEverything (key : BitVec 128) : Tables where
  tbLookupT := lookupEntries (expandKey key) 0
  tbLookupT2r := lookupEntries (expandKey key) 1
  tbRecircDecision := recircEntries (expandKey key)

def tbLookup (table : List ((Byte × Byte) × BitVec 32)) (s currRound : Byte) (v : BitVec 32) : BitVec 32 :=
  match table.lookup (s,currRound) with
  | some v => v
  | none => v

def xorIni (v : Fin 4 → Fin 4 → BitVec 32) : Fin 4 → BitVec 32 × BitVec 32 :=
  ![(v 0 0^^^v 1 1,v 2 2^^^v 3 3),(v 1 0^^^v 2 1,v 3 2^^^v 0 3),(v 2 0^^^v 3 1,v 0 2^^^v 1 3),
    (v 3 0^^^v 0 1,v 1 2^^^v 2 3)]

def xorFin (ab : BitVec 32 × BitVec 32) (c : Fin 4) : Byte := byteOf ab.1 c^^^byteOf ab.2 c

def encryptionRound (tables : Fin 4 → Fin 4 → List ((Byte × Byte) × BitVec 32)) (currRound : Byte)
    (s : AesInout) (v : Fin 4 → Fin 4 → BitVec 32) : AesInout × (Fin 4 → Fin 4 → BitVec 32) :=
  let v := fun r c => tbLookup (tables r c) (s r c) currRound (v r c)
  (fun r => xorFin (xorIni v r),v)

structure Routed where
  hdr : Headers
  ucastEgressPort : BitVec 9

def incrAndRecirc (nextRound : Byte) (rndPortForRecirc : BitVec 9) (hdr : Headers) (aesMeta : AesMeta) : Routed where
  hdr := { hdr with
    aesMeta := some { aesMeta with currRound := nextRound }
    copy := none
    udp := hdr.udp.map fun udp => { udp with dstPort := aesPort+1 } }
  ucastEgressPort := rndPortForRecirc

def doNotRecirc (hdr : Headers) (aesMeta : AesMeta) : Routed where
  hdr := { hdr with
    totalLen := (8+16+8)+20
    udp := hdr.udp.map fun udp => { udp with dstPort := aesPort, udpTotalLen := 8+16+8 }
    aesMeta := none
    copy := some copyrightString }
  ucastEgressPort := aesMeta.destPort.setWidth 9

def doNotRecircFinalXor (x : Fin 4 → Word) (hdr : Headers) (aesMeta : AesMeta) : Routed :=
  doNotRecirc { hdr with aes := hdr.aes.map fun s r c => s r c^^^(x r).get c } aesMeta

def tbRecircDecision (tables : Tables) (rndPortForRecirc : BitVec 9) (hdr : Headers) (aesMeta : AesMeta) : Routed :=
  match tables.tbRecircDecision.lookup aesMeta.currRound with
  | some (.incrAndRecirc nextRound) => incrAndRecirc nextRound rndPortForRecirc hdr aesMeta
  | some .doNotRecirc => doNotRecirc hdr aesMeta
  | some (.doNotRecircFinalXor x) => doNotRecircFinalXor x hdr aesMeta
  | none => doNotRecirc hdr aesMeta

/-- In the first pass the header `aes_meta` is added and the checksum erased. -/
def withMeta (ingressPort : BitVec 9) (hdr : Headers) : Headers × AesMeta :=
  match hdr.aesMeta with
  | some aesMeta => (hdr,aesMeta)
  | none =>
    ({ hdr with udp := hdr.udp.map fun udp => { udp with checksum := 0 } }, ⟨ingressPort.setWidth 16,0,0xff⟩)

/-- What the target decides in a pass: the random bit and the metadata before they are written. -/
structure Chance where
  rndBit : BitVec 1
  v : Fin 4 → Fin 4 → BitVec 32

def switchIngress (tables : Tables) (chance : Chance) (ingressPort : BitVec 9) (hdr : Headers) : Option Routed :=
  match hdr.aes with
  | none => none
  | some s =>
    let (hdr,aesMeta) := withMeta ingressPort hdr
    let rndPortForRecirc : BitVec 9 := if chance.rndBit=0 then 68 else 68+128
    let (s,v) := encryptionRound tables.tbLookupT aesMeta.currRound s chance.v
    let (s,_) := encryptionRound tables.tbLookupT2r aesMeta.currRound s v
    some (tbRecircDecision tables rndPortForRecirc { hdr with aes := some s } aesMeta)

def pass (tables : Tables) (chance : Chance) (ingressPort : BitVec 9) (pkt : Packet) : Option (BitVec 9 × Packet) := do
  let (hdr,rest) ← parse pkt
  let routed ← switchIngress tables chance ingressPort hdr
  pure (routed.ucastEgressPort,deparse routed.hdr rest)

def IsRecirc (port : BitVec 9) : Prop := port=68 ∨ port=196
instance (port : BitVec 9) : Decidable (IsRecirc port) := inferInstanceAs (Decidable (_ ∨ _))

structure FrontPort where
  port : BitVec 9
  not_recirc : ¬ IsRecirc port

/-- The packet that leaves the switch, with its port and the number of recirculations, in at most
`fuel` passes. -/
def process (tables : Tables) (chance : Nat → Chance) : Nat → Nat → BitVec 9 → Packet → Option (Nat × BitVec 9 × Packet)
  | 0, _, _, _ => none
  | fuel+1, recircs, ingressPort, pkt => do
    let (port,pkt) ← pass tables (chance recircs) ingressPort pkt
    if IsRecirc port then process tables chance fuel (recircs+1) port pkt
    else pure (recircs,port,pkt)
end P4Benchmarks.AesTofino
