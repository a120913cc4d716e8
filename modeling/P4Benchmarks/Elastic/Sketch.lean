import Mathlib.Logic.Function.Basic
/-!
# ElasticSketch

The heavy part keeps up to seven flows a bucket, with a guard counter in the eighth lane; flows that
lose their place are counted in the light part, an array of 8-bit counters.
-/
namespace P4Benchmarks.Elastic
open Function
abbrev Key := BitVec 32
abbrev Lane := Fin 8
def guardLane : Lane := 7
def validLanes : List Lane := [0,1,2,3,4,5,6]
def getCounterVal (val : BitVec 32) : BitVec 32 := val&&&0x7FFFFFFF#32
def highestBitIs1 (val : BitVec 32) : Bool := val&&&0x80000000#32 != 0#32
def judgeIfSwap (minVal guardVal : BitVec 32) : Bool := minVal<<<3<guardVal
def updateGuardVal (guardVal : BitVec 32) : BitVec 32 := guardVal+1

structure Bucket where
  (key val : Lane → BitVec 32)

/-- What `HeavyPart::insert` returns: 0, 1 with the flow that was swapped out, or 2. -/
inductive HeavyResult where
  | stored
  | swapped (swapKey : Key) (swapVal : BitVec 32)
  | passed

def firstLane (p : Lane → Bool) : Option Lane := (validLanes++[guardLane]).find? p
def minEpi32 (a b : BitVec 32) : BitVec 32 := if a.slt b then a else b
namespace Bucket
def empty : Bucket := ⟨fun _ => 0,fun _ => 0⟩
variable (b : Bucket)
def results (i : Lane) : BitVec 32 :=
  (b.val i&&&0x7FFFFFFF#32)|||(if i=guardLane then 0x7FFFFFFF#32 else 0#32)

def minPair (lo hi : Lane) : BitVec 32 := minEpi32 (b.results lo) (b.results hi)

def minCounterVal : BitVec 32 :=
  minEpi32 (minEpi32 (b.minPair 0 4) (b.minPair 2 6)) (minEpi32 (b.minPair 1 5) (b.minPair 3 7))

def minCounter : Lane := (firstLane fun i => b.results i==b.minCounterVal).getD guardLane
def nextGuardVal : BitVec 32 := updateGuardVal (b.val guardLane)

def insert (fp : Key) (f : BitVec 32) : Bucket × HeavyResult :=
  match firstLane fun i => b.key i==fp with
  | some i => ({ b with val := update b.val i (b.val i+f) },.stored)
  | none =>
    if b.minCounterVal=0 then (⟨update b.key b.minCounter fp,update b.val b.minCounter f⟩,.stored)
    else if !judgeIfSwap (getCounterVal b.minCounterVal) b.nextGuardVal then
      ({ b with val := update b.val guardLane b.nextGuardVal },.passed)
    else
      (⟨update b.key b.minCounter fp,update (update b.val guardLane 0) b.minCounter 0x80000001#32⟩,
        .swapped (b.key b.minCounter) (b.val b.minCounter))

def query (fp : Key) : BitVec 32 :=
  match validLanes.find? fun i => b.key i==fp with
  | some i => b.val i
  | none => 0
end Bucket

structure LightPart where
  counters : Nat → BitVec 8
  miceDist : Nat → Int
namespace LightPart
def init : LightPart := ⟨fun _ => 0,fun _ => 0⟩
variable (l : LightPart) (pos : Nat)
def setCounter (newVal : BitVec 32) : LightPart where
  counters := update l.counters pos (newVal.setWidth 8)
  miceDist :=
    let old := update l.miceDist (l.counters pos).toNat
      (l.miceDist (l.counters pos).toNat-1)
    update old newVal.toNat (old newVal.toNat+1)

def saturate (v : BitVec 32) : BitVec 32 := if v.slt 255#32 then v else 255#32
def insert (f : BitVec 32) : LightPart := l.setCounter pos (saturate ((l.counters pos).setWidth 32+f))

def swapInsert (f : BitVec 32) : LightPart :=
  if ((l.counters pos).setWidth 32).slt (saturate f) then l.setCounter pos (saturate f) else l

def query : BitVec 32 := (l.counters pos).setWidth 32
end LightPart

structure Params where
  (bucketNum counterNum : Nat)
  (bucketHash bobHash : Key → BitVec 32)
  bucketNum_pos : 0<bucketNum
  counterNum_pos : 0 < counterNum

def calculateBucketPos (fp : Key) : BitVec 32 := (fp*2654435761#32)>>>15
namespace Params
variable (p : Params) (key : Key)
def bucketPos : Nat := (p.bucketHash key).toNat%p.bucketNum
def counterPos : Nat := (p.bobHash key).toNat%p.counterNum
theorem bucketPos_lt : p.bucketPos key<p.bucketNum := Nat.mod_lt _ p.bucketNum_pos
theorem counterPos_lt : p.counterPos key<p.counterNum := Nat.mod_lt _ p.counterNum_pos
end Params

structure Sketch where
  heavy : Nat → Bucket
  light : LightPart
namespace Sketch
def init : Sketch := ⟨fun _ => .empty,.init⟩
variable (p : Params)
def lightInsert (l : LightPart) (key : Key) : HeavyResult → LightPart
  | .stored => l
  | .swapped swapKey swapVal =>
    if highestBitIs1 swapVal then l.insert (p.counterPos swapKey) (getCounterVal swapVal)
    else l.swapInsert (p.counterPos swapKey) swapVal
  | .passed => l.insert (p.counterPos key) 1

def insert (s : Sketch) (key : Key) (f : BitVec 32) : Sketch :=
  let r := (s.heavy (p.bucketPos key)).insert key f
  ⟨update s.heavy (p.bucketPos key) r.1,lightInsert p s.light key r.2⟩

def query (s : Sketch) (key : Key) : Int :=
  let heavyResult := (s.heavy (p.bucketPos key)).query key
  if heavyResult=0 ∨ highestBitIs1 heavyResult then
    (getCounterVal heavyResult+s.light.query (p.counterPos key)).toInt
  else heavyResult.toInt

def insertAll (keys : List Key) : Sketch := keys.foldl (fun s key => s.insert p key 1) init
end Sketch
end P4Benchmarks.Elastic
