import Mathlib.Order.Lattice.Nat
import P4Benchmarks.P4rtOvs.Hashmap
/-! # The hash map is a finite map -/
namespace P4Benchmarks.P4rtOvs
open Lib List BitVec
variable {K V : Type}
inductive MapCall (K V : Type) where
  | update (key : K) (value : V)
  | delete (key : K)
  | lookup (key : K)
  | dump
  | size

inductive MapReply (K V : Type) where
  | status (result : Int)
  | value (value : Option V)
  | entries (data : List (K × V)) (count : BitVec 32)
  | count (count : BitVec 32)
variable [DecidableEq K]
namespace Hashmap
def call (A : Allocator) (hash : K → BitVec 32) (maxEntries : BitVec 32) (s : Hashmap K V) :
    MapCall K V → Option (Hashmap K V × MapReply K V)
  | .update key value => (s.update A hash maxEntries key value).map (Prod.map id .status)
  | .delete key => (s.delete hash key).map (Prod.map id .status)
  | .lookup key => (s.lookup hash key).map fun value => (s,.value value)
  | .dump => s.dump.map fun (data,count) => (s,.entries data count)
  | .size => some (s,.count s.count)

def run (A : Allocator) (hash : K → BitVec 32) (maxEntries : BitVec 32) (s : Hashmap K V) :
    List (MapCall K V) → Option (Hashmap K V × List (MapReply K V))
  | [] => some (s,[])
  | c::calls => do
    let (s,reply) ← s.call A hash maxEntries c
    let (s,replies) ← s.run A hash maxEntries calls
    return (s,reply::replies)
end Hashmap

abbrev FiniteMap (K V : Type) := Finmap fun _ : K => V
namespace FiniteMap
def Full (n : Nat) (m : FiniteMap K V) (key : K) : Prop := key ∉ m ∧ n ≤ m.keys.card

instance (n : Nat) (m : FiniteMap K V) (key : K) : Decidable (Full n m key) :=
  inferInstanceAs (Decidable (_ ∧ _))

def after (n : Nat) (m : FiniteMap K V) : MapCall K V → FiniteMap K V
  | .update key value => if Full n m key then m else m.insert key value
  | .delete key => if key ∈ m then m.erase key else m
  | _ => m

def Answers (n : Nat) (m : FiniteMap K V) : MapCall K V → MapReply K V → Prop
  | .update key _, .status result => result = if Full n m key then -4 else 0
  | .delete key, .status result => result = if key ∈ m then 0 else -4
  | .lookup key, .value value => value=m.lookup key
  | .dump, .entries data count =>
    (data.map Prod.fst).Nodup ∧ (∀ key value, (key,value) ∈ data ↔ m.lookup key=some value) ∧ count.toNat=m.keys.card
  | .size, .count count => count.toNat=m.keys.card
  | _, _ => False

inductive Run (n : Nat) : FiniteMap K V → List (MapCall K V) → List (MapReply K V) → FiniteMap K V → Prop
  | nil (m) : Run n m [] [] m
  | cons {m m' c calls reply replies} : Answers n m c reply → Run n (after n m c) calls replies m' →
      Run n m (c::calls) (reply::replies) m'
end FiniteMap
namespace Hashmap
variable {s : Hashmap K V} {order : List Nat} {m : FiniteMap K V} {hash : K → BitVec 32}
  {maxEntries : BitVec 32} {a : Nat}

structure Represents (hash : K → BitVec 32) (maxEntries : BitVec 32) (s : Hashmap K V)
    (order : List Nat) (m : FiniteMap K V) : Prop extends Heap hash s order where
  keys : ∀ a ∈ order, ∀ b ∈ order, (s.elems a).key=(s.elems b).key → a=b
  lookup : ∀ key value, m.lookup key=some value ↔ ∃ a ∈ order, (s.elems a).key=key ∧ (s.elems a).value=value
  count : s.count.toNat=order.length
  room : order.length ≤ maxEntries.toNat
namespace Represents
section
variable (hs : Represents hash maxEntries s order m)
include hs
variable (key : K)
theorem mem_iff : key ∈ m ↔ ∃ a ∈ order, (s.elems a).key=key := by
  rw [Finmap.mem_iff]
  constructor
  · rintro ⟨value,hvalue⟩
    obtain ⟨a,ha,hkey,-⟩ := (hs.lookup key value).mp hvalue
    exact ⟨a,ha,hkey⟩
  · rintro ⟨a,ha,hkey⟩
    exact ⟨_,(hs.lookup key _).mpr ⟨a,ha,hkey,rfl⟩⟩

theorem nodup_keys : (order.map fun a => (s.elems a).key).Nodup := hs.nodup.map_on hs.keys

theorem card_keys : m.keys.card=order.length := by
  have hkeys : m.keys=(order.map fun a => (s.elems a).key).toFinset := by
    ext key
    simp [Finmap.mem_keys,hs.mem_iff]
  rw [hkeys,toFinset_card_of_nodup hs.nodup_keys,length_map]

theorem full_iff : FiniteMap.Full maxEntries.toNat m key ↔ key ∉ m ∧ maxEntries ≤ s.count := by
  rw [FiniteMap.Full,hs.card_keys,le_def,hs.count]

theorem lookupElemRaw : (∃ a ∈ order, s.lookupElemRaw (s.selectBucket (hash key)) (hash key) key=some (some a) ∧
      (s.elems a).key=key ∧ m.lookup key=some (s.elems a).value) ∨
    s.lookupElemRaw (s.selectBucket (hash key)) (hash key) key=some none ∧ key ∉ m := by
  obtain ⟨elem,hraw,helem⟩ := hs.toHeap.lookupElemRaw hs.keys key
  cases elem with
  | some a =>
    obtain ⟨ha,hkey⟩ := (helem a).mp rfl
    exact .inl ⟨a,ha,hraw,hkey,(hs.lookup key _).mpr ⟨a,ha,hkey,rfl⟩⟩
  | none =>
    refine .inr ⟨hraw,?_⟩
    rw [hs.mem_iff]
    rintro ⟨a,ha,hkey⟩
    cases (helem a).mpr ⟨ha,hkey⟩

theorem insert {key : K} (hkey : key ∉ m) (ha : a ∉ order) (hroom : s.count < maxEntries) (value : V) :
    Represents hash maxEntries
      { s.link (s.selectBucket (hash key)) a ⟨hash key,key,value⟩ with count := s.count+1 }
      (order++[a]) (m.insert key value) := by
  have hheap := hs.toHeap.link ha key value
  have hnew := link_elems_self s (s.selectBucket (hash key)) a ⟨hash key,key,value⟩
  have hold := fun b => link_elems_of_mem (s := s) (b := b) (s.selectBucket (hash key)) ⟨hash key,key,value⟩ ha
  have habsent : ∀ b ∈ order, (s.elems b).key≠key := by
    intro b hb heq
    exact hkey ((hs.mem_iff key).mpr ⟨b,hb,heq⟩)
  have hkeys := hs.keys
  refine ⟨⟨hheap.ring,hheap.nodup,hheap.live,hheap.hash_key,hheap.nbBuckets_pos⟩,?_,?_,?_,?_⟩
  · grind
  · intro k v
    by_cases hk : k=key
    · subst hk
      rw [Finmap.lookup_insert]
      grind
    · rw [Finmap.lookup_insert_of_ne _ hk,hs.lookup]
      grind
  · rw [lt_def] at hroom
    have hcount := hs.count
    simp [toNat_add]
    omega
  · rw [lt_def,hs.count] at hroom
    rw [length_append]
    exact hroom

theorem replace {key : K} {b : Nat} (hb : b ∈ order) (hkey : (s.elems b).key=key) (ha : a ∉ order) (value : V) :
    Represents hash maxEntries ((s.link (s.selectBucket (hash key)) a ⟨hash key,key,value⟩).unlink b)
    ((order++[a]).filter (· ≠ b)) (m.insert key value) := by
  have hheap := (hs.toHeap.link ha key value).unlink (mem_append_left [a] hb)
  have hnew := link_elems_self s (s.selectBucket (hash key)) a ⟨hash key,key,value⟩
  have hold := fun b => link_elems_of_mem (s := s) (b := b) (s.selectBucket (hash key)) ⟨hash key,key,value⟩ ha
  have hkeys := hs.keys
  have hlength : ((order++[a]).filter (· ≠ b)).length=order.length := by
    have hlength := (hs.toHeap.link ha key value).length_filter (mem_append_left [a] hb)
    simpa using hlength
  refine ⟨hheap,?_,?_,?_,?_⟩
  · simp only [unlink_elems]
    grind
  · intro k v
    simp only [unlink_elems]
    by_cases hk : k=key
    · subst hk
      rw [Finmap.lookup_insert]
      grind
    · rw [Finmap.lookup_insert_of_ne _ hk,hs.lookup]
      grind
  · rw [hlength,← hs.count]
    rfl
  · rw [hlength]
    exact hs.room

theorem erase {key : K} (ha : a ∈ order) (hkey : (s.elems a).key=key) :
    Represents hash maxEntries { s.unlink a with count := s.count-1 } (order.filter (· ≠ a)) (m.erase key) := by
  have hheap := hs.toHeap.unlink ha
  have hkeys := hs.keys
  have hlength := hs.toHeap.length_filter ha
  refine ⟨⟨hheap.ring,hheap.nodup,hheap.live,hheap.hash_key,hheap.nbBuckets_pos⟩,?_,?_,?_,?_⟩
  · simp only [unlink_elems]
    grind
  · intro k v
    simp only [unlink_elems]
    by_cases hk : k=key
    · subst hk
      rw [Finmap.lookup_erase]
      grind
    · rw [Finmap.lookup_erase_ne hk,hs.lookup]
      grind
  · have hle : (1#32) ≤ s.count := by
      rw [le_def,hs.count,← hlength]
      simp
    have hsub := toNat_sub_of_le hle
    rw [hs.count,← hlength] at hsub
    simpa using hsub
  · have hroom := hs.room
    omega
variable (A : Allocator)
theorem update (key : K) (value : V) : ∃ s' order', s.update A hash maxEntries key value =
        some (s',if FiniteMap.Full maxEntries.toNat m key then -4 else 0) ∧
      Represents hash maxEntries s' order' (FiniteMap.after maxEntries.toNat m (.update key value)) := by
  have hfresh : A.malloc s.mallocs s.live ∉ order := by
    have hnew := A.fresh s.mallocs s.live
    simpa [hs.live,mem_toFinset] using hnew
  obtain ⟨a,ha,hraw,hkey,hlookup⟩ | ⟨hraw,hkey⟩ := hs.lookupElemRaw key
  · have hmem : key ∈ m := Finmap.mem_of_lookup_eq_some hlookup
    have hfull : ¬ FiniteMap.Full maxEntries.toNat m key := fun hfull => hfull.1 hmem
    rw [FiniteMap.after,if_neg hfull,if_neg hfull]
    exact ⟨_,_,by simp [Hashmap.update,hraw],hs.replace ha hkey hfresh value⟩
  · by_cases hfull : FiniteMap.Full maxEntries.toNat m key
    · refine ⟨s,order,?_,?_⟩
      · simp [Hashmap.update,hraw,hfull,((hs.full_iff key).mp hfull).2]
      · rwa [FiniteMap.after,if_pos hfull]
    · have hroom : ¬ maxEntries ≤ s.count := fun hle => hfull ((hs.full_iff key).mpr ⟨hkey,hle⟩)
      rw [FiniteMap.after,if_neg hfull,if_neg hfull]
      exact ⟨_,_,by simp [Hashmap.update,hraw,hroom],hs.insert hkey hfresh (BitVec.not_le.mp hroom) value⟩

theorem delete : ∃ s' order', s.delete hash key=some (s',if key ∈ m then 0 else -4) ∧
      Represents hash maxEntries s' order' (FiniteMap.after maxEntries.toNat m (.delete key)) := by
  obtain ⟨a,ha,hraw,hkey,hlookup⟩ | ⟨hraw,hkey⟩ := hs.lookupElemRaw key
  · have hmem : key ∈ m := Finmap.mem_of_lookup_eq_some hlookup
    rw [FiniteMap.after,if_pos hmem,if_pos hmem]
    exact ⟨_,_,by simp [Hashmap.delete,hraw],hs.erase ha hkey⟩
  · refine ⟨s,order,?_,?_⟩
    · simp [Hashmap.delete,hraw,hkey]
    · rwa [FiniteMap.after,if_neg hkey]

theorem lookup_eq : s.lookup hash key=some (m.lookup key) := by
  obtain ⟨a,ha,hraw,hkey,hlookup⟩ | ⟨hraw,hkey⟩ := hs.lookupElemRaw key
  · simp [Hashmap.lookup,hraw,hlookup]
  · simp [Hashmap.lookup,hraw,Finmap.lookup_eq_none.mpr hkey]

theorem dump : ∃ data, s.dump=some (data,s.count) ∧
      FiniteMap.Answers maxEntries.toNat m .dump (.entries data s.count) := by
  have hperm := hs.perm_buckets
  have hdata := hs.dumpBuckets fun j (hj : j ∈ List.range s.nbBuckets.toNat) => mem_range.mp hj
  refine ⟨_,by rw [Hashmap.dump,hdata]; rfl,?_,?_,?_⟩
  · rw [map_map,(hperm.map _).nodup_iff]
    exact hs.nodup_keys
  · intro key value
    rw [hs.lookup,(hperm.map _).mem_iff]
    simp
  · rw [hs.count,hs.card_keys]

theorem call (c : MapCall K V) : ∃ s' reply order', s.call A hash maxEntries c=some (s',reply) ∧
      FiniteMap.Answers maxEntries.toNat m c reply ∧
      Represents hash maxEntries s' order' (FiniteMap.after maxEntries.toNat m c) := by
  cases c with
  | update key value =>
    obtain ⟨s',order',heq,hs'⟩ := hs.update A key value
    exact ⟨s',.status _,order',by simp [Hashmap.call,heq],rfl,hs'⟩
  | delete key =>
    obtain ⟨s',order',heq,hs'⟩ := hs.delete key
    exact ⟨s',.status _,order',by simp [Hashmap.call,heq],rfl,hs'⟩
  | lookup key => exact ⟨s,.value _,order,by simp [Hashmap.call,hs.lookup_eq key],rfl,hs⟩
  | dump =>
    obtain ⟨data,heq,hanswer⟩ := hs.dump
    exact ⟨s,_,order,by simp [Hashmap.call,heq],hanswer,hs⟩
  | size =>
    refine ⟨s,_,order,rfl,?_,hs⟩
    simp [FiniteMap.Answers,hs.count,hs.card_keys]

theorem run (calls : List (MapCall K V)) : ∃ s' replies order' m', s.run A hash maxEntries calls=some (s',replies) ∧
      FiniteMap.Run maxEntries.toNat m calls replies m' ∧
      Represents hash maxEntries s' order' m' := by
  induction calls generalizing s order m with
  | nil => exact ⟨s,[],order,m,rfl,.nil m,hs⟩
  | cons c calls ih =>
    obtain ⟨s₁,reply,order₁,hcall,hanswer,hs₁⟩ := hs.call A c
    obtain ⟨s₂,replies,order₂,m',hrun,hspec,hs₂⟩ := ih hs₁
    refine ⟨s₂,reply::replies,order₂,m',?_,.cons hanswer hspec,hs₂⟩
    simp [Hashmap.run,hcall,hrun]
end

theorem create (hpos : 0<(roundUpPowOfTwo maxEntries).toNat) (links : Links Node) (elems : Nat → HmapElem K V) :
    Represents hash maxEntries (create maxEntries links elems) [] ∅ where
  toHeap := Heap.create hpos links elems
  keys := by simp
  lookup := by simp
  count := rfl
  room := Nat.zero_le _
end Represents

theorem or_shiftRight_lt {v : BitVec 32} (hv : v.toNat<2^31) (n : Nat) : (v|||v>>>n).toNat<2^31 := by
  exact Nat.or_lt_two_pow hv (lt_of_le_of_lt (Nat.shiftRight_le _ _) hv)

theorem add_one_pos {v : BitVec 32} (hv : v.toNat<2^31) : 0<(v+1).toNat := by
  simp
  omega

theorem roundUpPowOfTwo_pos (hone : 1 ≤ maxEntries.toNat) (hmax : maxEntries.toNat≤2^31) :
    0<(roundUpPowOfTwo maxEntries).toNat := by
  have hv : (maxEntries-1).toNat<2^31 := by
    simp
    omega
  exact add_one_pos (or_shiftRight_lt (or_shiftRight_lt (or_shiftRight_lt (or_shiftRight_lt
    (or_shiftRight_lt hv 1) 2) 4) 8) 16)
end Hashmap

/-- Every sequence of calls on a new hash map gets the replies of a finite map, and `count` is the
number of its keys, at most `max_entries`. -/
theorem hashmap_refines_finiteMap (A : Allocator) (hash : K → BitVec 32) {maxEntries : BitVec 32}
    (hone : 1 ≤ maxEntries.toNat) (hmax : maxEntries.toNat≤2^31) (links : Links Node) (elems : Nat → HmapElem K V)
    (calls : List (MapCall K V)) :
    ∃ s replies m, (Hashmap.create maxEntries links elems).run A hash maxEntries calls = some (s,replies) ∧
    FiniteMap.Run maxEntries.toNat ∅ calls replies m ∧ s.count.toNat=m.keys.card ∧ m.keys.card ≤ maxEntries.toNat := by
  have hcreate : Hashmap.Represents hash maxEntries (.create maxEntries links elems) [] ∅ :=
    .create (Hashmap.roundUpPowOfTwo_pos hone hmax) links elems
  obtain ⟨s,replies,order,m,hrun,hspec,hs⟩ := hcreate.run A calls
  refine ⟨s,replies,m,hrun,hspec,?_,?_⟩
  · rw [hs.count,hs.card_keys]
  · rw [hs.card_keys]
    exact hs.room

def Allocator.above : Allocator where
  malloc := fun _ live => live.sup id+1
  fresh := by
    intro n live hmem
    have hle : live.sup id+1≤live.sup id := Finset.le_sup (f := id) hmem
    omega

/-- One entry at most: the second key is refused. -/
theorem oneEntry_refines : ∃ (s : Hashmap Bool Nat) (replies : List (MapReply Bool Nat)) (m : FiniteMap Bool Nat),
    (Hashmap.create 1 ⟨id,id⟩ fun _ => ⟨0,false,0⟩).run Allocator.above (fun _ => 0) 1
        [.update false 7,.update true 8,.dump]=some (s,replies) ∧
      FiniteMap.Run 1 ∅ [.update false 7,.update true 8,.dump] replies m ∧
      s.count.toNat=m.keys.card ∧ m.keys.card≤1 :=
  hashmap_refines_finiteMap Allocator.above (fun _ => 0) (by decide) (by decide) ⟨id,id⟩
    (fun _ => ⟨0,false,0⟩) [.update false 7,.update true 8,.dump]
end P4Benchmarks.P4rtOvs
