import Mathlib.Data.Finmap
import P4Benchmarks.Lib.CircularList
/-!
# The hash map

`ubpf_hashmap.c`: an array of buckets, each the head of a circular list of elements.  Keys and
values are the `key_size` and `value_size` bytes that `memcmp` and `memcpy` work on.
-/
namespace P4Benchmarks.P4rtOvs
open Lib List
inductive Node where
  | bucket (i : Nat)
  | elem (a : Nat)
deriving DecidableEq

@[simp]
def Node.addr? : Node → Option Nat
  | bucket _ => none
  | elem a => some a

structure HmapElem (K V : Type) where
  hash : BitVec 32
  key : K
  value : V
deriving DecidableEq

/-- `xmalloc`, which aborts when no memory is left: an address that is not in use, chosen at each
call in any way. -/
structure Allocator where
  malloc : Nat → Finset Nat → Nat
  fresh : ∀ n live, malloc n live ∉ live

structure Hashmap (K V : Type) where
  links : Links Node
  elems : Nat → HmapElem K V
  live : Finset Nat
  mallocs : Nat
  (count nbBuckets : BitVec 32)

def roundUpPowOfTwo (x : BitVec 32) : BitVec 32 :=
  let v := x-1
  let v := v|||v>>>1
  let v := v|||v>>>2
  let v := v|||v>>>4
  let v := v|||v>>>8
  let v := v|||v>>>16
  v+1
namespace Hashmap
variable {K V : Type}
/-- `ubpf_hashmap_create`, over memory with any content.  The loop compares its counter as an
unsigned number. -/
def create (maxEntries : BitVec 32) (links : Links Node) (elems : Nat → HmapElem K V) : Hashmap K V where
  links := (List.range (roundUpPowOfTwo maxEntries).toNat).foldl (fun L i => L.init (.bucket i)) links
  elems := elems
  live := ∅
  mallocs := 0
  count := 0
  nbBuckets := roundUpPowOfTwo maxEntries
section
variable (s : Hashmap K V)
def selectBucket (hash : BitVec 32) : Nat := (hash&&&(s.nbBuckets-1)).toNat

def link (head a : Nat) (elem : HmapElem K V) : Hashmap K V :=
  { s with
    links := s.links.insert (.bucket head) (.elem a)
    elems := Function.update s.elems a elem
    live := insert a s.live
    mallocs := s.mallocs+1 }

def unlink (a : Nat) : Hashmap K V := { s with links := s.links.remove (.elem a), live := s.live.erase a }
def entry? (x : Node) : Option (K × V) := x.addr?.map fun a => ((s.elems a).key,(s.elems a).value)

def bucketNodes (j : Nat) : Option (List Node) :=
  s.links.collect (.bucket j) s.live.card (s.links.next (.bucket j))
end

def dumpBuckets (s : Hashmap K V) : List Nat → Option (List (K × V))
  | [] => some []
  | j::js => do
    let nodes ← s.bucketNodes j
    let data ← s.dumpBuckets js
    return nodes.filterMap s.entry?++data

def dump (s : Hashmap K V) : Option (List (K × V) × BitVec 32) := do
  let data ← s.dumpBuckets (List.range s.nbBuckets.toNat)
  return (data,s.count)
variable [DecidableEq K] (s : Hashmap K V)
def hasKey (hash : BitVec 32) (key : K) : Node → Bool
  | .bucket _ => false
  | .elem a => (s.elems a).hash=hash ∧ (s.elems a).key=key

/-- `lookup_elem_raw`; `none` when the loop does not come back to the head. -/
def lookupElemRaw (head : Nat) (hash : BitVec 32) (key : K) : Option (Option Nat) :=
  (s.links.find (.bucket head) (s.hasKey hash key) s.live.card (s.links.next (.bucket head))).map (·.bind Node.addr?)
variable (hash : K → BitVec 32) (s : Hashmap K V)
def lookup (key : K) : Option (Option V) := do
  let head := s.selectBucket (hash key)
  let elem ← s.lookupElemRaw head (hash key) key
  return elem.map fun a => (s.elems a).value

def update (A : Allocator) (hash : K → BitVec 32) (maxEntries : BitVec 32) (s : Hashmap K V)
    (key : K) (value : V) : Option (Hashmap K V × Int) := do
  let head := s.selectBucket (hash key)
  let oldElem ← s.lookupElemRaw head (hash key) key
  if oldElem=none ∧ maxEntries ≤ s.count then return (s,-4)
  let newElem := A.malloc s.mallocs s.live
  let s := s.link head newElem ⟨hash key,key,value⟩
  match oldElem with
  | some a => return (s.unlink a,0)
  | none => return ({ s with count := s.count+1 },0)

def delete (key : K) : Option (Hashmap K V × Int) := do
  let head := s.selectBucket (hash key)
  let elem ← s.lookupElemRaw head (hash key) key
  match elem with
  | none => return (s,-4)
  | some a =>
    let s := s.unlink a
    return ({ s with count := s.count-1 },0)
end Hashmap
namespace Hashmap
variable {K V : Type} {s : Hashmap K V} {order : List Nat} {hash : K → BitVec 32} {a i : Nat}
def home (s : Hashmap K V) (a : Nat) : Nat := s.selectBucket (s.elems a).hash
def chain (s : Hashmap K V) (order : List Nat) (i : Nat) : List Node := (order.filter (s.home · = i)).map .elem

structure Heap (hash : K → BitVec 32) (s : Hashmap K V) (order : List Nat) : Prop where
  ring : ∀ i < s.nbBuckets.toNat, s.links.Ring (.bucket i) (s.chain order i)
  nodup : order.Nodup
  live : s.live=order.toFinset
  hash_key : ∀ a ∈ order, (s.elems a).hash=hash (s.elems a).key
  nbBuckets_pos : 0 < s.nbBuckets.toNat

@[simp]
theorem bucket_notMem_chain (j : Nat) : Node.bucket j ∉ s.chain order i := by simp [chain]

@[simp]
theorem elem_mem_chain : Node.elem a ∈ s.chain order i ↔ a ∈ order ∧ s.home a=i := by simp [chain]

theorem chain_nodup (hnodup : order.Nodup) : (s.chain order i).Nodup := by
  apply (hnodup.filter _).map
  intro a b hab
  simpa using hab

theorem selectBucket_lt (hpos : 0 < s.nbBuckets.toNat) (h : BitVec 32) : s.selectBucket h < s.nbBuckets.toNat := by
  have hle : (h&&&(s.nbBuckets-1)).toNat≤(s.nbBuckets-1).toNat := by exact Nat.and_le_right
  have hsub : (s.nbBuckets-1).toNat=s.nbBuckets.toNat-1 := by
    rw [BitVec.toNat_sub_of_le]
    · simp
    · exact BitVec.le_def.mpr hpos
  rw [selectBucket]
  omega
section Link
variable {elem : HmapElem K V} {head b : Nat}
@[simp]
theorem link_elems_self (s : Hashmap K V) (head a : Nat) (elem : HmapElem K V) : (s.link head a elem).elems a=elem := by
  simp [link]

theorem link_elems_of_mem (head : Nat) (elem : HmapElem K V) (ha : a ∉ order) (hb : b ∈ order) :
    (s.link head a elem).elems b=s.elems b := by
  have hba : b≠a := fun heq => ha (heq ▸ hb)
  simp [link,hba]

@[simp]
theorem link_count : (s.link head a elem).count=s.count := rfl

@[simp]
theorem link_selectBucket (h : BitVec 32) : (s.link head a elem).selectBucket h=s.selectBucket h := rfl

theorem chain_link (ha : a ∉ order) : (s.link head a elem).chain (order++[a]) i =
      if s.selectBucket elem.hash=i then s.chain order i++[.elem a] else s.chain order i := by
  have hold : order.filter ((s.link head a elem).home · = i)=order.filter (s.home · = i) := by
    apply filter_congr
    intro b hb
    have hhome : (s.link head a elem).home b=s.home b := by rw [home,link_elems_of_mem _ _ ha hb,link_selectBucket,home]
    rw [hhome]
  have hnew : (s.link head a elem).home a=s.selectBucket elem.hash := by simp [home]
  split
  · simp_all [chain]
  · simp_all [chain]

@[simp]
theorem unlink_elems : (s.unlink a).elems=s.elems := rfl

@[simp]
theorem unlink_count : (s.unlink a).count=s.count := rfl

@[simp]
theorem unlink_chain : (s.unlink a).chain order i=s.chain order i := rfl

theorem chain_filter : s.chain (order.filter (· ≠ a)) i=(s.chain order i).filter (· ≠ .elem a) := by
  rw [chain,chain,filter_comm,filter_map]
  congr 1
  apply filter_congr
  simp
end Link

theorem ring_init_buckets (L : Links Node) (n : Nat) {i : Nat} (hi : i<n) :
    ((List.range n).foldl (fun L i => L.init (.bucket i)) L).Ring (.bucket i) [] := by
  induction n with
  | zero => omega
  | succ n ih =>
    rw [range_succ,foldl_append,foldl_cons,foldl_nil]
    by_cases hin : i=n
    · rw [hin]
      exact Links.ring_init
    · apply (ih (by omega)).init_of_notMem
      · simpa using Ne.symm hin
      · exact not_mem_nil
namespace Heap
section
variable (hheap : Heap hash s order)
include hheap
theorem home_lt (a : Nat) : s.home a < s.nbBuckets.toNat := selectBucket_lt hheap.nbBuckets_pos _
theorem card_live : s.live.card=order.length := by rw [hheap.live,toFinset_card_of_nodup hheap.nodup]

theorem chain_length_le : (s.chain order i).length ≤ s.live.card := by
  rw [hheap.card_live,chain,length_map]
  exact length_filter_le _ _

theorem length_filter (ha : a ∈ order) : (order.filter (· ≠ a)).length+1=order.length := by
  have hcard := Finset.card_erase_add_one (mem_toFinset.mpr ha)
  rw [toFinset_card_of_nodup hheap.nodup] at hcard
  rw [← hcard,← toFinset_card_of_nodup (hheap.nodup.filter _)]
  congr 2
  ext b
  simp [and_comm]

theorem link (ha : a ∉ order) (key : K) (value : V) :
    Heap hash (s.link (s.selectBucket (hash key)) a ⟨hash key,key,value⟩) (order++[a]) where
  ring := by
    intro i hi
    have hring := hheap.ring i hi
    have hhead := hheap.ring _ (selectBucket_lt hheap.nbBuckets_pos (hash key))
    rw [chain_link ha]
    split
    · next heq =>
      subst heq
      exact hring.insert (bucket_notMem_chain _) (by simp) (by simp [ha])
    · next hne =>
      exact hring.insert_of_notMem hhead (by simpa using hne) (bucket_notMem_chain _) (by simp) (by simp [ha]) (by simp)
  nodup := by
    rw [nodup_append]
    refine ⟨hheap.nodup,nodup_singleton a,?_⟩
    intro b hb c hc hbc
    simp at hc
    exact ha (hc ▸ hbc ▸ hb)
  live := by
    ext b
    simp [Hashmap.link,hheap.live]
  hash_key := by
    intro b hb
    rcases mem_append.mp hb with hb | hb
    · rw [link_elems_of_mem _ _ ha hb]
      exact hheap.hash_key b hb
    · simp [mem_singleton.mp hb]
  nbBuckets_pos := hheap.nbBuckets_pos

theorem unlink (ha : a ∈ order) : Heap hash (s.unlink a) (order.filter (· ≠ a)) where
  ring := by
    intro i hi
    have hring := hheap.ring i hi
    have hhome := hheap.ring _ (hheap.home_lt a)
    rw [unlink_chain,chain_filter]
    by_cases hmem : .elem a ∈ s.chain order i
    · exact hring.remove hmem (bucket_notMem_chain _) (chain_nodup hheap.nodup)
    · have hself : (s.chain order i).filter (· ≠ .elem a)=s.chain order i :=
        filter_eq_self.mpr fun x hx => by grind
      rw [hself]
      exact hring.remove_of_notMem hhome (by simp [ha]) (by simp) hmem
  nodup := hheap.nodup.filter _
  live := by
    ext b
    simp [Hashmap.unlink,hheap.live,and_comm]
  hash_key := fun b hb => hheap.hash_key b (mem_of_mem_filter hb)
  nbBuckets_pos := hheap.nbBuckets_pos
end

theorem create {maxEntries : BitVec 32} (hpos : 0<(roundUpPowOfTwo maxEntries).toNat)
    (links : Links Node) (elems : Nat → HmapElem K V) :
    Heap hash (create maxEntries links elems) [] where
  ring := by
    intro i hi
    exact ring_init_buckets links _ hi
  nodup := nodup_nil
  live := rfl
  hash_key := by simp
  nbBuckets_pos := hpos
variable (hheap : Heap hash s order)
include hheap
theorem lookupElemRaw [DecidableEq K]
    (hkeys : ∀ a ∈ order, ∀ b ∈ order, (s.elems a).key=(s.elems b).key → a=b) (key : K) :
    ∃ elem, s.lookupElemRaw (s.selectBucket (hash key)) (hash key) key=some elem ∧
      ∀ a, elem=some a ↔ a ∈ order ∧ (s.elems a).key=key := by
  have hring := hheap.ring _ (selectBucket_lt hheap.nbBuckets_pos (hash key))
  have hfind := hring.find (bucket_notMem_chain _) (s.hasKey (hash key) key) hheap.chain_length_le
  refine ⟨_,by rw [Hashmap.lookupElemRaw,hfind]; rfl,?_⟩
  intro a
  constructor
  · intro ha
    obtain ⟨x,hx,hxa⟩ := Option.bind_eq_some_iff.mp ha
    have hmem := mem_of_find?_eq_some hx
    have hp := List.find?_some hx
    cases x with
    | bucket j => simp at hmem
    | elem b =>
      simp at hxa
      subst hxa
      simp [hasKey] at hmem hp
      exact ⟨hmem.1,hp.2⟩
  · rintro ⟨ha,rfl⟩
    have hhome : s.home a=s.selectBucket (hash (s.elems a).key) := by rw [home,hheap.hash_key a ha]
    cases hx : (s.chain order (s.selectBucket (hash (s.elems a).key))).find?
        (s.hasKey (hash (s.elems a).key) (s.elems a).key) with
    | none =>
      have hno := List.find?_eq_none.mp hx (.elem a) (elem_mem_chain.mpr ⟨ha,hhome⟩)
      simp [hasKey,hheap.hash_key a ha] at hno
    | some x =>
      have hmem := mem_of_find?_eq_some hx
      have hp := List.find?_some hx
      cases x with
      | bucket j => simp at hmem
      | elem b =>
        simp [hasKey] at hmem hp
        simp [hkeys b hmem.1 a ha hp.2]

theorem dumpBuckets {js : List Nat} (hjs : ∀ j ∈ js, j < s.nbBuckets.toNat) :
    s.dumpBuckets js=some ((js.flatMap fun j => order.filter (s.home · = j)).map fun a =>
      ((s.elems a).key,(s.elems a).value)) := by
  induction js with
  | nil => rfl
  | cons j js ih =>
    have hring := hheap.ring j (hjs j mem_cons_self)
    have hnodes : s.bucketNodes j=some (s.chain order j) :=
      hring.collect (bucket_notMem_chain _) hheap.chain_length_le
    have hdata := ih fun i hi => hjs i (mem_cons_of_mem j hi)
    have hentries : (s.chain order j).filterMap s.entry? =
        (order.filter (s.home · = j)).map fun a => ((s.elems a).key,(s.elems a).value) := by
      rw [chain,filterMap_map,← filterMap_eq_map]
      rfl
    simp [Hashmap.dumpBuckets,hnodes,hdata,hentries]

theorem perm_buckets : ((List.range s.nbBuckets.toNat).flatMap fun j => order.filter (s.home · = j)).Perm order := by
  rw [perm_ext_iff_of_nodup _ hheap.nodup]
  · intro a
    simp [hheap.home_lt a]
  · rw [nodup_flatMap]
    refine ⟨fun j _ => hheap.nodup.filter _,?_⟩
    refine nodup_range.imp fun {i j} hij => ?_
    intro a hi hj
    simp at hi hj
    exact hij (hi.2.symm.trans hj.2)
end Heap
end Hashmap
end P4Benchmarks.P4rtOvs
