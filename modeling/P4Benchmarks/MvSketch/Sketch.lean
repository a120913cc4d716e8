import Mathlib.Algebra.Ring.Int.Defs
import Mathlib.Algebra.GroupWithZero.Nat
import Mathlib.Data.Fintype.Basic
/-!
# MV-Sketch

Each row of the sketch hashes a key to a bucket with the sum of all weights, a candidate key and the
margin of the candidate.
-/
namespace P4Benchmarks.MvSketch
abbrev Byte := BitVec 8

structure Params where
  (keylen depth width : Nat)
  width_pos : 0<width
  murmurHash : Nat → (Fin keylen → Byte) → BitVec 64

abbrev Params.Key (p : Params) := Fin p.keylen → Byte
def intOf (x : Int) : Int := x.bmod (2^32)
def longOf (x : Int) : Int := x.bmod (2^64)

structure SBucket (p : Params) where
  (sum count : Int)
  key : p.Key
variable {p : Params}
/-- `key[0]` of the key in a bucket; with no bytes to copy it stays what it was at the start. -/
def firstByte (key : p.Key) : Byte := if h : 0<p.keylen then key ⟨0,h⟩ else 0
namespace SBucket
def init : SBucket p := ⟨0,0,fun _ => 0⟩
variable (b : SBucket p) (key : p.Key)
def update (val : Int) : SBucket p :=
  if firstByte b.key=0 then ⟨intOf (b.sum+val),val,key⟩
  else if key=b.key then ⟨intOf (b.sum+val),longOf (b.count+val),b.key⟩
  else if longOf (b.count-val)<0 then ⟨intOf (b.sum+val),longOf (-longOf (b.count-val)),key⟩
  else ⟨intOf (b.sum+val),longOf (b.count-val),b.key⟩

def lowest : Int := if key=b.key then intOf b.count else 0

def upest : Int :=
  if key=b.key then intOf (longOf ((longOf (b.sum-b.count)).tdiv 2+b.count))
  else intOf ((longOf (b.sum-b.count)).tdiv 2)
end SBucket

structure MVSketch (p : Params) where
  sum : Int
  counts : Nat → SBucket p

def Params.bucket (p : Params) (i : Nat) (key : p.Key) : Nat := (p.murmurHash i key).toNat%p.width
def Params.index (p : Params) (i : Nat) (key : p.Key) : Nat := i*p.width+p.bucket i key
namespace MVSketch
def init : MVSketch p := ⟨0,fun _ => .init⟩

def updateRow (counts : Nat → SBucket p) (key : p.Key) (val : Int) (i : Nat) : Nat → SBucket p :=
  Function.update counts (p.index i key) ((counts (p.index i key)).update key val)
variable (s : MVSketch p) (key : p.Key)
def update (val : Int) : MVSketch p where
  sum := intOf (s.sum+val)
  counts := (List.range p.depth).foldl (fun counts i => updateRow counts key val i) s.counts

def lowEstimate : Int :=
  (List.range p.depth).foldl (fun ret i => max ret ((s.counts (p.index i key)).lowest key)) 0

def upEstimate : Int :=
  (List.range p.depth).foldl (fun ret i =>
      if i=0 then (s.counts (p.index i key)).upest key
      else min ret ((s.counts (p.index i key)).upest key)) 0

def query (thresh : Int) : List (p.Key × Int) :=
  let res := ((List.range (p.width*p.depth)).filter fun i => thresh < (s.counts i).sum).map fun i => (s.counts i).key
  (res.eraseDups.map fun key => (key,s.upEstimate key)).filter fun r => thresh < r.2

def updateAll (updates : List (p.Key × Int)) : MVSketch p := updates.foldl (fun s u => s.update u.1 u.2) init
end MVSketch
variable (updates : List (p.Key × Int))
def weightOf (key : p.Key) : Int := ((updates.filter fun u => u.1=key).map Prod.snd).sum
def totalWeight : Int := (updates.map Prod.snd).sum
end P4Benchmarks.MvSketch
