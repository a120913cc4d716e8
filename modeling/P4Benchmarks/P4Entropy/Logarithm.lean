import Mathlib.Data.Nat.Bitwise
import Mathlib.Data.Fintype.Basic
/-!
# The logarithm of P4Entropy

`do_logES` and `do_logES_dec` of `p4entropy.p4`, a base 2 logarithm with ten fractional bits.
-/
namespace P4Benchmarks.P4Entropy
open BitVec Nat

def smear (v : BitVec 64) (k : Nat) : BitVec 64 := v|||v>>>k
def addBits (mask : BitVec 64) (v : BitVec 64) (k : Nat) : BitVec 64 := (v&&&mask)+(v>>>k&&&mask)

def countBits (bucVal : BitVec 64) : BitVec 64 :=
  let bucVal := addBits 0x5555555555555555 bucVal 1
  let bucVal := addBits 0x3333333333333333 bucVal 2
  let bucVal := addBits 0xf0f0f0f0f0f0f0f bucVal 4
  let bucVal := addBits 0xff00ff00ff00ff bucVal 8
  let bucVal := addBits 0xffff0000ffff bucVal 16
  addBits 0xffffffff bucVal 32

def doLogES (bucSum : BitVec 64) : BitVec 64 := countBits ([1,2,4,8,16,32].foldl smear bucSum)

def doLogESDec (bucSum bucVal : BitVec 64) : BitVec 64 :=
  let logValue := (bucVal-1)<<<10
  let bucSumR1 := bucSum^^^bucSum>>>1
  let bucSumR2 := bucSum^^^bucSum>>>2
  if bucSum < bucSumR1 then if bucSum > bucSumR2 then logValue+330 else logValue
  else if bucSum < bucSumR2 then logValue+599
  else logValue+827

structure Filled (n k : Nat) (v : BitVec 64) : Prop where
  above : ∀ i, n < i → v.getLsbD i=false
  set : ∀ i ≤ n, n < i+k → v.getLsbD i

theorem Filled.smear {n k : Nat} {v : BitVec 64} (h : Filled n k v) : Filled n (2*k) (smear v k) := by
  constructor
  · intro i hi
    rw [P4Entropy.smear,getLsbD_or,getLsbD_ushiftRight,h.above i hi,h.above _ (by omega)]
    rfl
  · intro i hi hk
    rw [P4Entropy.smear,getLsbD_or,getLsbD_ushiftRight]
    by_cases hset : n < i+k
    · rw [h.set i hi hset,Bool.true_or]
    · rw [h.set (k+i) (by omega) (by omega),Bool.or_true]
variable {x : BitVec 64} {n : Nat} (h : Filled n 1 x)
include h
theorem doLogES_eq (hn : n<64) : doLogES x=.ofNat 64 (n+1) := by
  have hsmear : [1,2,4,8,16,32].foldl smear x=allOnes 64>>>(63-n) := by
    have hfill := h.smear.smear.smear.smear.smear.smear
    apply eq_of_getLsbD_eq
    intro i hi
    rw [getLsbD_ushiftRight,getLsbD_allOnes]
    by_cases hin : i≤n
    · exact (hfill.set i hin (by omega)).trans (decide_eq_true (by omega)).symm
    · exact (hfill.above i (by omega)).trans (decide_eq_false (by omega)).symm
  have hcount : ∀ m : Fin 64, countBits (allOnes 64>>>(63-m.val))=.ofNat 64 (m.val+1) := by decide +kernel
  rw [doLogES,hsmear]
  exact hcount ⟨n,hn⟩

theorem lt_xor_shift {k : Nat} (hkn : k≤n) :
    (x < x^^^x>>>k ↔ x.getLsbD (n-k)=false) ∧ (x^^^x>>>k < x ↔ x.getLsbD (n-k)) := by
  have hbit j : (x^^^x>>>k).getLsbD j=(x.getLsbD j ^^ x.getLsbD (k+j)) := by rw [getLsbD_xor,getLsbD_ushiftRight]
  have hsame j (hj : n-k<j) : (x^^^x>>>k).getLsbD j=x.getLsbD j := by rw [hbit,h.above (k+j) (by omega),Bool.xor_false]
  have hdiff : (x^^^x>>>k).getLsbD (n-k)=!x.getLsbD (n-k) := by
    rw [hbit,Nat.add_sub_cancel' hkn,h.set n le_rfl (by omega),Bool.xor_true]
  cases hset : x.getLsbD (n-k) with
  | false =>
    have hlt : x < x^^^x>>>k :=
      lt_of_testBit (n-k) hset (by rw [testBit_toNat,hdiff,hset]; rfl) fun j hj => (hsame j hj).symm
    simp [hlt,BitVec.lt_asymm hlt]
  | true =>
    have hlt : x^^^x>>>k < x := lt_of_testBit (n-k) (by rw [testBit_toNat,hdiff,hset]; rfl) hset hsame
    simp [hlt,BitVec.lt_asymm hlt]
omit h

def fraction (x n : Nat) : Nat :=
  if 4*x<5*2^n then 0 else if 2*x<3*2^n then 330 else if 4*x<7*2^n then 599 else 827

theorem filled_of_between (hle : 2^n ≤ x.toNat) (hlt : x.toNat<2^(n+1)) : Filled n 1 x := by
  constructor
  · intro i hi
    exact testBit_lt_two_pow (Nat.lt_of_lt_of_le hlt (Nat.pow_le_pow_right (by decide) hi))
  · intro i hi hk
    obtain rfl : i=n := by omega
    have hdiv : x.toNat/2^i=1 := by
      rw [Nat.pow_succ] at hlt
      exact Nat.div_eq_of_lt_le (by omega) (by omega)
    rw [← testBit_toNat,testBit_eq_decide_div_mod_eq,hdiv]
    rfl

/-- For 2 and from 4 on, the logarithm in units of 1/1024, piecewise constant in the quarters between
two powers of two. -/
theorem log_value_eq (x : BitVec 64) (hx : x=2 ∨ 4≤x.toNat) : ∃ n, (2^n ≤ x.toNat ∧ x.toNat<2^(n+1)) ∧
      (doLogESDec x (doLogES x)).toNat=1024*n+fraction x.toNat n := by
  rcases hx with rfl | hx
  · exact ⟨1,by decide⟩
  · obtain ⟨m,hle,hlt⟩ : ∃ m, 2^(m+2) ≤ x.toNat ∧ x.toNat<2^(m+3) := by
      have hlog : 2≤x.toNat.log2 := (le_log2 (by omega)).mpr hx
      refine ⟨x.toNat.log2-2,?_,?_⟩
      · rw [Nat.sub_add_cancel hlog]
        exact log2_self_le (by omega)
      · rw [show x.toNat.log2-2+3=x.toNat.log2+1 by omega]
        exact lt_log2_self
    have h := filled_of_between hle hlt
    have hn : m+2<64 := (Nat.pow_lt_pow_iff_right (by decide)).mp (Nat.lt_of_le_of_lt hle x.isLt)
    have hlog : ((BitVec.ofNat 64 (m+2+1)-1)<<<10).toNat=1024*(m+2) := by
      rw [toNat_shiftLeft,toNat_sub,toNat_ofNat,Nat.shiftLeft_eq]
      change (2^64-1+(m+2+1)%2^64)%2^64*2^10%2^64=_
      omega
    have hquarter k : x.toNat<k*2^m ↔ x.toNat/2^m<k := (Nat.div_lt_iff_lt_mul (Nat.two_pow_pos m)).symm
    have hlow : x.getLsbD m=decide (x.toNat/2^m%2=1) := testBit_eq_decide_div_mod_eq
    have hhigh : x.getLsbD (m+1)=decide (x.toNat/2^m/2%2=1) := by
      rw [Nat.div_div_eq_div_mul,← Nat.pow_succ]
      exact testBit_eq_decide_div_mod_eq
    have hfraction : fraction x.toNat (m+2)=
        if x.toNat/2^m<5 then 0 else if x.toNat/2^m<6 then 330 else if x.toNat/2^m<7 then 599 else 827 := by
      simp only [fraction,← hquarter,show 2^(m+2)=4*2^m by rw [Nat.pow_succ,Nat.pow_succ]; omega]
      generalize 2^m=p
      split_ifs <;> omega
    have hleast : ¬x.toNat/2^m<4 := by
      rw [← hquarter]
      rw [Nat.pow_succ,Nat.pow_succ] at hle
      omega
    have hmost : x.toNat/2^m<8 := by
      rw [← hquarter]
      rw [Nat.pow_succ,Nat.pow_succ,Nat.pow_succ] at hlt
      omega
    refine ⟨m+2,⟨hle,hlt⟩,?_⟩
    simp only [doLogES_eq h hn,doLogESDec,hfraction,GT.gt,(lt_xor_shift h (show 1 ≤ m+2 by omega)).1,
      lt_xor_shift h (show 2 ≤ m+2 by omega),show m+2-1=m+1 from rfl,Nat.add_sub_cancel,hlow,hhigh]
    generalize x.toNat/2^m=q at hleast hmost ⊢
    generalize (BitVec.ofNat 64 (m+2+1)-1)<<<10=logValue at hlog ⊢
    obtain rfl | rfl | rfl | rfl : q=4 ∨ q=5 ∨ q=6 ∨ q=7 := by omega
    · simp [hlog]
    all_goals
      simp [hlog]
      omega

theorem log_value_eq_nine :
    4≤(9#64).toNat ∧ ∃ n, (2^n ≤ 9 ∧ 9<2^(n+1)) ∧ (doLogESDec 9 (doLogES 9)).toNat=1024*n+fraction 9 n :=
  ⟨by decide,log_value_eq 9 (.inr (by decide))⟩
end P4Benchmarks.P4Entropy
