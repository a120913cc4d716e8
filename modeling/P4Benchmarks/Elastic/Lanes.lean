import Mathlib.Algebra.BigOperators.Fin
import Mathlib.Algebra.Order.BigOperators.Group.Finset
import Mathlib.Data.Nat.Bitwise
import P4Benchmarks.Elastic.Sketch
import P4Benchmarks.Lib.LinearSketch
/-! # What a bucket does -/
namespace P4Benchmarks.Elastic
open BitVec Function Lib
section Counters
variable {v a b : BitVec 32}
theorem toNat_getCounterVal (v : BitVec 32) : (getCounterVal v).toNat=v.toNat%2^31 := by
  exact Nat.and_two_pow_sub_one_eq_mod v.toNat 31

theorem highestBitIs1_iff (v : BitVec 32) : highestBitIs1 v ↔ 2^31≤v.toNat := by
  have hand : (v&&&0x80000000#32).toNat=(v.toNat.testBit 31).toNat*2^31 := by exact Nat.and_two_pow v.toNat 31
  have hbit : v.toNat.testBit 31=decide (2^31≤v.toNat) := by
    rw [Nat.testBit_eq_decide_div_mod_eq]
    congr 1
    rw [eq_iff_iff]
    omega
  rw [highestBitIs1,bne_iff_ne,ne_eq,← toNat_inj,hand,hbit]
  simp

theorem slt_iff_toNat_lt (ha : a.toNat<2^31) (hb : b.toNat<2^31) : a.slt b ↔ a.toNat<b.toNat := by
  rw [BitVec.slt,decide_eq_true_iff,toInt_eq_toNat_of_lt (by omega),toInt_eq_toNat_of_lt (by omega)]
  omega

theorem toNat_minEpi32 (ha : a.toNat<2^31) (hb : b.toNat<2^31) : (minEpi32 a b).toNat=min a.toNat b.toNat := by
  have hslt := slt_iff_toNat_lt ha hb
  rw [minEpi32]
  split_ifs with h
  · have := hslt.mp h
    omega
  · have : ¬a.toNat<b.toNat := fun hlt => h (hslt.mpr hlt)
    omega

theorem toNat_add_one (h : v.toNat%2^31<2^31-1) : (v+1).toNat=v.toNat+1 := by
  have hadd := toNat_add v 1#32
  change (v+1).toNat=(v.toNat+1)%2^32 at hadd
  omega
end Counters
section Lanes
variable {p : Lane → Bool} {i : Lane}
theorem mem_validLanes : i ∈ validLanes ↔ i≠guardLane := by
  revert i
  decide

theorem of_firstLane (h : firstLane p=some i) : p i := List.find?_some h

theorem firstLane_eq_none : firstLane p=none ↔ ∀ i, p i=false := by
  rw [firstLane,List.find?_eq_none]
  refine ⟨fun h i => ?_,fun h i _ => by simp [h i]⟩
  have hmem : i ∈ validLanes++[guardLane] := by
    rw [List.mem_append,mem_validLanes,List.mem_singleton]
    exact (em (i=guardLane)).symm
  simpa using h i hmem

theorem firstLane_ne_guard (hi : i≠guardLane) (hp : p i) : firstLane p≠some guardLane := by
  rw [firstLane,List.find?_append]
  intro h
  cases hfind : validLanes.find? p with
  | none =>
    rw [List.find?_eq_none] at hfind
    exact hfind i (mem_validLanes.mpr hi) hp
  | some j =>
    rw [hfind] at h
    cases h
    exact mem_validLanes.mp (List.mem_of_find?_eq_some hfind) rfl
end Lanes
namespace Bucket
variable {b : Bucket} {i : Lane} {fp : Key}
def count (b : Bucket) (i : Lane) : Nat := (b.val i).toNat%2^31

theorem toNat_results (hi : i≠guardLane) : (b.results i).toNat=b.count i := by
  rw [results,if_neg hi,or_zero]
  exact toNat_getCounterVal _
section
variable (b : Bucket)
theorem results_guardLane : b.results guardLane=0x7FFFFFFF#32 := by
  rw [results,if_pos rfl]
  ext j hj
  cases (b.val guardLane)[j] <;> simp

theorem toNat_results_lt (i : Lane) : (b.results i).toNat<2^31 := by
  by_cases hi : i=guardLane
  · rw [hi,results_guardLane]
    decide
  · rw [toNat_results hi]
    exact Nat.mod_lt _ (Nat.two_pow_pos 31)

theorem minEpi32_results {x y : BitVec 32} (hx : ∃ i, b.results i=x) (hy : ∃ i, b.results i=y) :
    (∃ i, b.results i=minEpi32 x y) ∧ (minEpi32 x y).toNat≤x.toNat ∧ (minEpi32 x y).toNat≤y.toNat := by
  have hlt : x.toNat<2^31 ∧ y.toNat<2^31 := by
    obtain ⟨i,rfl⟩ := hx
    obtain ⟨j,rfl⟩ := hy
    exact ⟨b.toNat_results_lt i,b.toNat_results_lt j⟩
  refine ⟨?_,?_⟩
  · rw [minEpi32]
    split_ifs
    · exact hx
    · exact hy
  · rw [toNat_minEpi32 hlt.1 hlt.2]
    omega

theorem minCounterVal_spec : (∃ i, b.results i=b.minCounterVal) ∧ ∀ i, b.minCounterVal.toNat≤(b.results i).toNat := by
  have hx (lo hi : Lane) : (∃ i, b.results i=b.minPair lo hi) ∧ (b.minPair lo hi).toNat≤(b.results lo).toNat ∧
      (b.minPair lo hi).toNat≤(b.results hi).toNat :=
    b.minEpi32_results ⟨lo,rfl⟩ ⟨hi,rfl⟩
  have heven := b.minEpi32_results (hx 0 4).1 (hx 2 6).1
  have hodd := b.minEpi32_results (hx 1 5).1 (hx 3 7).1
  obtain ⟨hmin,hle⟩ := b.minEpi32_results heven.1 hodd.1
  have h04 := (hx 0 4).2
  have h26 := (hx 2 6).2
  have h15 := (hx 1 5).2
  have h37 := (hx 3 7).2
  refine ⟨hmin,fun i => ?_⟩
  rw [minCounterVal]
  match i with
  | 0 | 1 | 2 | 3 | 4 | 5 | 6 | 7 => omega

theorem minCounter_spec : b.minCounter≠guardLane ∧ b.count b.minCounter=b.minCounterVal.toNat ∧
      ∀ i≠guardLane, b.minCounterVal.toNat≤b.count i := by
  obtain ⟨⟨i,hi⟩,hle⟩ := b.minCounterVal_spec
  have hcount : ∀ j≠guardLane, b.minCounterVal.toNat≤b.count j := by
    intro j hj
    rw [← toNat_results hj]
    exact hle j
  -- if only the guard lane had the minimum, lane 0 would be larger than any counter
  obtain ⟨j,hj,hmin⟩ : ∃ j, j≠guardLane ∧ b.results j=b.minCounterVal := by
    by_cases hg : i=guardLane
    · refine ⟨0,by decide,?_⟩
      apply eq_of_toNat_eq
      have hzero := hle 0
      have hlt := b.toNat_results_lt 0
      rw [← hi,hg,results_guardLane,toNat_ofNat] at hzero ⊢
      omega
    · exact ⟨i,hg,hi⟩
  have hfound : firstLane (fun i => b.results i==b.minCounterVal)=some b.minCounter := by
    rw [minCounter]
    cases hfirst : firstLane fun i => b.results i==b.minCounterVal with
    | none =>
      have := firstLane_eq_none.mp hfirst j
      simp [hmin] at this
    | some _ => rfl
  have hne : b.minCounter≠guardLane := by
    intro hguard
    rw [hguard] at hfound
    exact firstLane_ne_guard hj (by simp [hmin]) hfound
  refine ⟨hne,?_,hcount⟩
  rw [← toNat_results hne]
  exact congrArg BitVec.toNat (eq_of_beq (of_firstLane hfound))
end

inductive Outcome (b : Bucket) (fp : Key) : Bucket × HeavyResult → Prop
  | matched (i : Lane) (hkey : b.key i=fp) :
    Outcome b fp ({ b with val := update b.val i (b.val i+1) },.stored)
  | filled (m : Lane) (hnew : ∀ i, b.key i≠fp) (hm : m≠guardLane) (hzero : b.count m=0) :
    Outcome b fp (⟨update b.key m fp,update b.val m 1⟩,.stored)
  | passed (hnew : ∀ i, b.key i≠fp) (hfull : ∀ i≠guardLane, b.count i≠0)
    (guardVal : BitVec 32) :
    Outcome b fp ({ b with val := update b.val guardLane guardVal },.passed)
  | swapped (m : Lane) (hnew : ∀ i, b.key i≠fp) (hm : m≠guardLane)
    (hfull : ∀ i≠guardLane, b.count i≠0) :
    Outcome b fp (⟨update b.key m fp,update (update b.val guardLane 0) m 0x80000001#32⟩,.swapped (b.key m) (b.val m))
variable (b : Bucket)
theorem insert_outcome (fp : Key) : b.Outcome fp (b.insert fp 1) := by
  obtain ⟨hm,hcount,hle⟩ := b.minCounter_spec
  rw [insert]
  split
  · rename_i i hfirst
    exact .matched i (eq_of_beq (of_firstLane hfirst))
  · rename_i hnone
    have hnew (i : Lane) : b.key i≠fp := by
      have := firstLane_eq_none.mp hnone i
      simpa using this
    have hfull (hne : b.minCounterVal≠0) (i : Lane) (hi : i≠guardLane) : b.count i≠0 := by
      intro hzero
      have hmin := hle i hi
      rw [hzero,Nat.le_zero] at hmin
      exact hne (eq_of_toNat_eq hmin)
    split_ifs with hzero
    · refine .filled b.minCounter hnew hm ?_
      rw [hcount,hzero]
      rfl
    · exact .passed hnew (hfull hzero) _
    · exact .swapped b.minCounter hnew hm (hfull hzero)

def counts (i : Lane) : Nat := if i=guardLane then 0 else b.count i
def weight : Nat := ∑ i, b.counts i
end Bucket

def HeavyResult.moved : HeavyResult → Nat
  | .stored => 0
  | .swapped _ swapVal => swapVal.toNat%2^31
  | .passed => 1
namespace Bucket
variable {b : Bucket} {i : Lane} {fp : Key}
theorem count_le_weight (b : Bucket) (hi : i≠guardLane) : b.count i≤b.weight := by
  have hle := Finset.single_le_sum (fun j _ => Nat.zero_le (b.counts j)) (Finset.mem_univ i)
  rwa [counts,if_neg hi] at hle
variable (key : Lane → BitVec 32)
theorem weight_update (hi : i≠guardLane) (v : BitVec 32) :
    weight ⟨key,update b.val i v⟩+b.count i=b.weight+v.toNat%2^31 := by
  have hcounts : counts ⟨key,update b.val i v⟩ = update b.counts i (v.toNat%2^31) := by
    funext j
    by_cases hj : j=i
    · rw [hj,update_self,counts,if_neg hi,count]
      simp [update_self]
    · rw [update_of_ne hj,counts,counts,count,count]
      simp [update_of_ne hj]
  have hsum := sum_update_add (Finset.mem_univ i) b.counts (v.toNat%2^31)
  rw [weight,hcounts,weight]
  rwa [counts,if_neg hi] at hsum

theorem weight_update_guard (v : BitVec 32) : weight ⟨key,update b.val guardLane v⟩=b.weight := by
  rw [weight,weight]
  congr 1
  funext j
  by_cases hj : j=guardLane
  · rw [counts,counts,if_pos hj,if_pos hj]
  · rw [counts,counts,count,count]
    simp [update_of_ne hj]

theorem Outcome.weight_le {r : Bucket × HeavyResult} (h : b.Outcome fp r)
    (hlt : b.weight<2^31-1) : r.1.weight+r.2.moved≤b.weight+1 := by
  cases h with
  | matched i hkey =>
    dsimp only [HeavyResult.moved]
    by_cases hi : i=guardLane
    · rw [hi,weight_update_guard]
      omega
    · have hcount := b.count_le_weight hi
      have hsum := b.weight_update b.key hi (b.val i+1)
      rw [count] at hcount hsum
      rw [toNat_add_one (by omega)] at hsum
      omega
  | filled m hnew hm hzero =>
    have hsum := b.weight_update (update b.key m fp) hm 1
    change _=b.weight+1 at hsum
    dsimp only [HeavyResult.moved]
    omega
  | passed hnew hfull guardVal =>
    dsimp only [HeavyResult.moved]
    rw [weight_update_guard]
  | swapped m hnew hm hfull =>
    have hguard := b.weight_update_guard b.key 0
    have hsum := weight_update (b := ⟨b.key,update b.val guardLane 0⟩) (update b.key m fp) hm 0x80000001#32
    rw [hguard,count] at hsum
    simp only [update_of_ne hm] at hsum
    change _=b.weight+1 at hsum
    dsimp only [HeavyResult.moved]
    omega
end Bucket
end P4Benchmarks.Elastic
