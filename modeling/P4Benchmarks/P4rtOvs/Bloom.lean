import Mathlib.Algebra.GroupWithZero.Nat
import Mathlib.Tactic.SplitIfs
import P4Benchmarks.P4rtOvs.Hashing
/-!
# The Bloom-filter map

`ubpf_bf.c`.  The bytes of `bits` are those of the block that `ubpf_bf_create` allocates; an access
outside the block, and a remainder by zero, have no result.
-/
namespace P4Benchmarks.P4rtOvs
open Lib BitVec List
structure BloomFilter where
  nbHashFunctions : BitVec 32
  allocated : Nat
  bits : Nat → Byte
variable (H : Lookup3) (d : MapDef)
def bfCreate (junk : Nat → Byte) : BloomFilter :=
  let nbBytes := d.maxEntries.toNat/8
  -- three more integers are allocated behind the bytes, but not cleared
  ⟨d.nbHashFunctions,nbBytes+12,fun i => if i<nbBytes then 0 else junk i⟩
variable (bf : BloomFilter)
def bfPosition (h : BitVec 32 × BitVec 32) (i : Nat) : Option (BitVec 32) :=
  let bound := d.maxEntries*8
  if bound=0 then none
  else
    let hash := roundHash h i%bound
    if hash.toNat/8<bf.allocated then some hash else none

@[local simp] def bfLookupLoop (bf : BloomFilter) (h : BitVec 32 × BitVec 32) : List Nat → Option Bool
  | [] => some true
  | i::rounds => do
    let hash ← bfPosition d bf h i
    if (bf.bits (hash.toNat/8)).getLsbD (hash.toNat%8) then bfLookupLoop bf h rounds
    else some false

def bfLookup (value : d.Value) : Option Bool :=
  bfLookupLoop d bf (H.hashes bf.nbHashFunctions value.toList) (range bf.nbHashFunctions.toNat)

def bfAddRound (h : BitVec 32 × BitVec 32) (bf : BloomFilter) (i : Nat) : Option BloomFilter := do
  let hash ← bfPosition d bf h i
  let byte := hash.toNat/8
  some { bf with
    bits := Function.update bf.bits byte (bf.bits byte|||(1 : Byte)<<<(hash.toNat%8)) }

def bfAdd (value : d.Value) : Option BloomFilter :=
  exec (bfAddRound d (H.hashes bf.nbHashFunctions value.toList)) bf (range bf.nbHashFunctions.toNat)

/-- Every run of adds stays inside the block, every lookup after it too, and what was added is
reported present. -/
def BfComplete (junk : Nat → Byte) : Prop :=
  ∀ values : List d.Value, ∃ bf, exec (bfAdd H d) (bfCreate d junk) values=some bf ∧
    (∀ value, (bfLookup H d bf value).isSome) ∧ ∀ value ∈ values, bfLookup H d bf value=some true

def BfFits : Prop := d.maxEntries.toNat%2^29≠0 ∧ d.maxEntries.toNat%2^29≤d.maxEntries.toNat/8+12
instance : Decidable (BfFits d) := inferInstanceAs (Decidable (_ ∧ _))
variable {H d}
theorem toNat_mul_eight (x : BitVec 32) : (x*8).toNat=8*(x.toNat%2^29) := by
  rw [toNat_mul,show (8 : BitVec 32).toNat=8 from rfl]
  omega

theorem bfPosition_of_fits (hfits : BfFits d) {bf : BloomFilter} (hbf : bf.allocated=d.maxEntries.toNat/8+12)
    (h : BitVec 32 × BitVec 32) (i : Nat) : bfPosition d bf h i=some (roundHash h i%(d.maxEntries*8)) := by
  have hbound := toNat_mul_eight d.maxEntries
  have hpos : 0<(d.maxEntries*8).toNat := by
    rw [hbound]
    exact Nat.mul_pos (by decide) (Nat.pos_of_ne_zero hfits.1)
  have hne : d.maxEntries*8≠0 := by
    intro hzero
    rw [hzero] at hpos
    exact absurd hpos (by decide)
  have hlt : (roundHash h i%(d.maxEntries*8)).toNat<8*(d.maxEntries.toNat%2^29) := by
    rw [toNat_umod,← hbound]
    exact Nat.mod_lt _ hpos
  have hfit := hfits.2
  simp only [bfPosition,if_neg hne]
  apply if_pos
  omega

def BloomFilter.IsSet (pos : Nat) : Prop := (bf.bits (pos/8)).getLsbD (pos%8)

structure Grows (bf bf' : BloomFilter) : Prop where
  nbHashFunctions : bf'.nbHashFunctions=bf.nbHashFunctions
  allocated : bf'.allocated=bf.allocated
  isSet : ∀ pos, bf.IsSet pos → bf'.IsSet pos

theorem Grows.refl : Grows bf bf := ⟨rfl,rfl,fun _ h => h⟩

theorem Grows.trans {bf bf' bf'' : BloomFilter} (h : Grows bf bf') (h' : Grows bf' bf'') : Grows bf bf'' where
  nbHashFunctions := h'.nbHashFunctions.trans h.nbHashFunctions
  allocated := h'.allocated.trans h.allocated
  isSet pos hpos := h'.isSet pos (h.isSet pos hpos)

theorem bfAddRound_of_fits (hfits : BfFits d) {bf : BloomFilter} (hbf : bf.allocated=d.maxEntries.toNat/8+12)
    (h : BitVec 32 × BitVec 32) (i : Nat) :
    ∃ bf', bfAddRound d h bf i=some bf' ∧ Grows bf bf' ∧ bf'.IsSet (roundHash h i%(d.maxEntries*8)).toNat := by
  unfold bfAddRound
  rw [bfPosition_of_fits hfits hbf]
  generalize roundHash h i%(d.maxEntries*8)=hash
  refine ⟨_,rfl,⟨rfl,rfl,fun pos hpos => ?_⟩,?_⟩
  · unfold BloomFilter.IsSet at hpos ⊢
    by_cases hbyte : pos/8=hash.toNat/8
    · rw [hbyte] at hpos
      simp [hbyte,hpos]
    · simpa [Function.update_of_ne hbyte] using hpos
  · simp [BloomFilter.IsSet,Nat.mod_lt]

def Present (H : Lookup3) (d : MapDef) (bf : BloomFilter) (value : d.Value) : Prop :=
  ∀ i<bf.nbHashFunctions.toNat,
    bf.IsSet (roundHash (H.hashes bf.nbHashFunctions value.toList) i%(d.maxEntries*8)).toNat

theorem Grows.present {bf bf' : BloomFilter} (h : Grows bf bf') {value : d.Value}
    (hvalue : Present H d bf value) : Present H d bf' value := by
  intro i hi
  rw [h.nbHashFunctions] at hi ⊢
  exact h.isSet _ (hvalue i hi)
section
variable (hfits : BfFits d) {bf : BloomFilter} (hbf : bf.allocated=d.maxEntries.toNat/8+12)
include hfits hbf
theorem bfAdd_of_fits (value : d.Value) :
    ∃ bf', bfAdd H d bf value=some bf' ∧ Grows bf bf' ∧ Present H d bf' value := by
  obtain ⟨bf',hrun,hgrows,hset⟩ := exec_grows .refl (fun _ _ _ => .trans)
    (fun _ _ h hbf => h.allocated.trans hbf) (fun _ hbf => bfAddRound_of_fits hfits hbf _)
    (fun _ _ _ h hset => h.isSet _ hset) hbf (range bf.nbHashFunctions.toNat)
  refine ⟨bf',hrun,hgrows,fun i hi => ?_⟩
  rw [hgrows.nbHashFunctions] at hi ⊢
  exact hset i (mem_range.mpr hi)

theorem exec_bfAdd (values : List d.Value) : ∃ bf', exec (bfAdd H d) bf values=some bf' ∧ Grows bf bf' ∧
      ∀ value ∈ values, Present H d bf' value := by
  exact exec_grows .refl (fun _ _ _ => .trans) (fun _ _ h hbf => h.allocated.trans hbf)
    (fun _ hbf => bfAdd_of_fits hfits hbf) (fun _ _ _ h hvalue => h.present hvalue) hbf values

theorem bfLookupLoop_of_fits (h : BitVec 32 × BitVec 32) (rounds : List Nat) : (bfLookupLoop d bf h rounds).isSome ∧
      ((∀ i ∈ rounds, bf.IsSet (roundHash h i%(d.maxEntries*8)).toNat) → bfLookupLoop d bf h rounds=some true) := by
  induction rounds with
  | nil => simp
  | cons i rounds ih =>
    simp only [bfLookupLoop,bfPosition_of_fits hfits hbf,Option.bind_eq_bind,Option.bind_some]
    constructor
    · split_ifs
      · exact ih.1
      · rfl
    · intro hset
      simp only [mem_cons,forall_eq_or_imp] at hset
      unfold BloomFilter.IsSet at hset
      rw [if_pos hset.1]
      exact ih.2 hset.2
end

theorem bfPosition_of_lookup {bf : BloomFilter} {value : d.Value} (h : (bfLookup H d bf value).isSome)
    (hnb : bf.nbHashFunctions≠0) : (bfPosition d bf (H.hashes bf.nbHashFunctions value.toList) 0).isSome := by
  have hpos : bf.nbHashFunctions.toNat≠0 := fun hzero => hnb (eq_of_toNat_eq hzero)
  obtain ⟨n,hn⟩ := Nat.exists_eq_succ_of_ne_zero hpos
  rw [bfLookup,hn,range_succ_eq_map] at h
  cases hposition : bfPosition d bf (H.hashes bf.nbHashFunctions value.toList) 0 with
  | none => simp [hposition] at h
  | some hash => rfl

/-- If every lookup in a fresh filter returns, the definition fits: one of the values could have the
last bit that is addressed. -/
theorem bfFits_of_complete {junk : Nat → Byte} (h : ∀ H, BfComplete H d junk)
    (hnb : d.nbHashFunctions≠0) : BfFits d := by
  have hbound := toNat_mul_eight d.maxEntries
  obtain ⟨bf,hrun,hlookup,-⟩ := h (.const (d.maxEntries*8-1) 0) []
  cases hrun
  have hposition := bfPosition_of_lookup (hlookup (Vector.replicate _ 0)) hnb
  have hround : roundHash ((Lookup3.const (d.maxEntries*8-1) 0).hashes
      d.nbHashFunctions (Vector.replicate d.valueSize.toNat (0 : Byte)).toList) 0 =
      d.maxEntries*8-1 := by
    simp only [roundHash,Lookup3.hashes,Lookup3.const]
    split_ifs <;> rfl
  simp only [bfPosition,bfCreate,hround] at hposition
  split_ifs at hposition with hzero hlt
  · simp at hposition
  · have hne : (d.maxEntries*8).toNat≠0 := fun h => hzero (eq_of_toNat_eq h)
    have hpred : (d.maxEntries*8-1).toNat=(d.maxEntries*8).toNat-1 := by
      rw [toNat_sub,show (1 : BitVec 32).toNat=1 from rfl]
      omega
    rw [toNat_umod,hpred,Nat.mod_eq_of_lt (by omega),hbound] at hlt
    constructor <;> omega
  · simp at hposition

/-- The filter keeps what was added, for all hash functions, exactly if it uses none or all bits
that it addresses are allocated. -/
theorem bfComplete_iff (d : MapDef) (junk : Nat → Byte) :
    (∀ H, BfComplete H d junk) ↔ d.nbHashFunctions=0 ∨ BfFits d := by
  constructor
  · intro h
    by_cases hnb : d.nbHashFunctions=0
    · exact .inl hnb
    · exact .inr (bfFits_of_complete h hnb)
  · rintro (hnb | hfits) H values
    · have hadd (bf : BloomFilter) (hbf : bf.nbHashFunctions=0) (value : d.Value) :
          bfAdd H d bf value=some bf := by
        simp [bfAdd,hbf]
      have hlookup (value : d.Value) : bfLookup H d (bfCreate d junk) value=some true := by simp [bfLookup,bfCreate,hnb]
      have hrun : exec (bfAdd H d) (bfCreate d junk) values=some (bfCreate d junk) := by
        induction values with
        | nil => rfl
        | cons value values ih => simp [exec_cons,hadd (bfCreate d junk) hnb value,ih]
      exact ⟨_,hrun,fun value => by simp [hlookup],fun value _ => hlookup value⟩
    · have hcreate : (bfCreate d junk).allocated=d.maxEntries.toNat/8+12 := rfl
      obtain ⟨bf,hrun,hgrows,hpresent⟩ := exec_bfAdd (H := H) hfits hcreate values
      refine ⟨bf,hrun,fun value => ?_,fun value hvalue => ?_⟩
      · exact (bfLookupLoop_of_fits hfits hgrows.allocated _ _).1
      · apply (bfLookupLoop_of_fits hfits hgrows.allocated _ _).2
        intro i hi
        exact hpresent value hvalue i (mem_range.mp hi)

/-- A filter for 128 entries with one hash function: 28 bytes are allocated and 128 addressed. -/
def bf128 : MapDef := ⟨4,128,1⟩
def bf128Value : bf128.Value := Vector.replicate 4 0

theorem bf128_outside : bfAdd (.const 1023 0) bf128 (bfCreate bf128 fun _ => 0) bf128Value=none ∧
      ¬ BfComplete (.const 1023 0) bf128 fun _ => 0 := by
  have hadd : bfAdd (.const 1023 0) bf128 (bfCreate bf128 fun _ => 0) bf128Value=none := rfl
  refine ⟨hadd,fun h => ?_⟩
  obtain ⟨bf,hrun,-⟩ := h [bf128Value]
  cases hrun
end P4Benchmarks.P4rtOvs
