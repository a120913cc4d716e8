import Mathlib.Algebra.GroupWithZero.Nat
import Mathlib.Order.Bounds.Defs
import P4Benchmarks.Elastic.Sketch
/-!
# Compression of the light part

`compress` keeps the maxima of the counters at equal positions modulo the compressed width.
-/
namespace P4Benchmarks.Elastic
open Option Nat
namespace LightPart

def maxFrom (l : LightPart) (counterNum width j : Nat) (maxVal : BitVec 8) : Option (BitVec 8) :=
  if j < counterNum ∧ 0<width then
    let maxVal := if l.counters j > maxVal then l.counters j else maxVal
    if j+width<2^31 then maxFrom l counterNum width (j+width) maxVal else none
  else some maxVal
termination_by counterNum-j

def getCompressWidth (counterNum ratio : Nat) : Nat := counterNum/ratio

def compress (l : LightPart) (counterNum ratio : Nat) : Option (Nat → BitVec 8) :=
  let width := getCompressWidth counterNum ratio
  if ∀ i < min width counterNum, (l.maxFrom counterNum width i 0).isSome then
    some fun i => (l.maxFrom counterNum width i 0).getD 0
  else none

def queryCompressedPart (compressPart : Nat → BitVec 8) (compressCounterNum pos : Nat) : BitVec 8 :=
  compressPart (pos%compressCounterNum)
variable {l : LightPart} {n width j : Nat} {m v : BitVec 8}
theorem eq_or_add_le {k : Nat} (hjk : j≤k) (hmod : k%width=j%width) : k=j ∨ j+width≤k := by
  rcases Nat.eq_zero_or_pos (k-j) with hzero | hpos
  · exact .inl (by omega)
  · have := le_of_dvd hpos (dvd_of_mod_eq_zero (sub_mod_eq_zero_of_mod_eq hmod))
    exact .inr (by omega)

theorem maxFrom_isSome (hw : 0<width) : (l.maxFrom n width j m).isSome ↔
    ∀ k, j≤k → k<n → k%width=j%width → k+width<2^31 := by
  fun_induction maxFrom l n width j m with
  | case1 j m h m' hlt ih =>
    rw [ih,add_mod_right]
    refine ⟨fun hrest k hjk hk hmod => ?_,fun hall k hjk => hall k (by omega)⟩
    obtain rfl | hle := eq_or_add_le hjk hmod
    · exact hlt
    · exact hrest k hle hk hmod
  | case2 j m h hlt =>
    simp only [isSome_none,Bool.false_eq_true,false_iff]
    exact fun hall => hlt (hall j (Nat.le_refl j) h.1 rfl)
  | case3 j m h =>
    simp only [isSome_some,true_iff]
    omega

theorem maxFrom_eq_some (hw : 0<width) (h : l.maxFrom n width j m=some v) : m≤v ∧
    (∀ k, j≤k → k<n → k%width=j%width → l.counters k≤v) ∧ (v=m ∨ ∃ k<n, k%width=j%width ∧ l.counters k=v) := by
  fun_induction maxFrom l n width j m with
  | case1 j m hj m' hlt ih =>
    obtain ⟨hle,hall,hmax⟩ := ih h
    rw [add_mod_right] at hall hmax
    have hm' : m ≤ m' ∧ l.counters j ≤ m' ∧ (m'=m ∨ m'=l.counters j) := by grind
    refine ⟨BitVec.le_trans hm'.1 hle,fun k hjk hk hmod => ?_,?_⟩
    · obtain rfl | hle' := eq_or_add_le hjk hmod
      · exact BitVec.le_trans hm'.2.1 hle
      · exact hall k hle' hk hmod
    · rcases hmax with rfl | hmax
      · exact hm'.2.2.imp_right fun heq => ⟨j,hj.1,rfl,heq.symm⟩
      · exact .inr hmax
  | case2 => cases h
  | case3 j m hj =>
    cases h
    exact ⟨BitVec.le_refl _,by omega,.inl rfl⟩

theorem fits_of_compress {ratio : Nat} (hw : 0<getCompressWidth n ratio) (hle : getCompressWidth n ratio≤n)
    (h : (l.compress n ratio).isSome) : n+getCompressWidth n ratio≤2^31 := by
  unfold compress at h
  generalize getCompressWidth n ratio=width at *
  dsimp only at h
  rw [Nat.min_eq_left hle,isSome_ite] at h
  have hlast := (maxFrom_isSome hw).mp (h _ (mod_lt (n-1) hw)) (n-1) (mod_le _ _) (by omega) (by rw [mod_mod])
  omega
end LightPart

/-- The compressed part exists, and gives for every key the maximum of the counters that are
congruent to its own, so at least its own. -/
def Compresses (p : Params) (l : LightPart) (ratio : Nat) : Prop :=
  let width := LightPart.getCompressWidth p.counterNum ratio
  ∃ part, l.compress p.counterNum ratio=some part ∧ ∀ key,
    IsGreatest { c | ∃ k < p.counterNum, k%width=p.counterPos key%width ∧ l.counters k=c }
      (LightPart.queryCompressedPart part width (p.counterPos key)) ∧
    (l.query (p.counterPos key)).toNat ≤ (LightPart.queryCompressedPart part width (p.counterPos key)).toNat

open LightPart
/-- This holds exactly if the loop variable of `compress` does not overflow. -/
theorem compresses_iff (p : Params) (l : LightPart) {ratio : Nat} (hpos : 1 ≤ ratio) (hle : ratio ≤ p.counterNum) :
    Compresses p l ratio ↔ p.counterNum+LightPart.getCompressWidth p.counterNum ratio≤2^31 := by
  have hw : 0<getCompressWidth p.counterNum ratio := Nat.div_pos hle hpos
  have hwle : getCompressWidth p.counterNum ratio ≤ p.counterNum := Nat.div_le_self _ _
  constructor
  · rintro ⟨part,hpart,-⟩
    exact fits_of_compress hw hwle (isSome_iff_exists.mpr ⟨part,hpart⟩)
  · intro hfits
    unfold Compresses compress
    generalize getCompressWidth p.counterNum ratio=width at *
    have hsome (i : Nat) : (l.maxFrom p.counterNum width i 0).isSome :=
      (maxFrom_isSome hw).mpr fun k _ hk _ => by omega
    refine ⟨_,if_pos fun i _ => hsome i,fun key => ?_⟩
    have hkey := p.counterPos_lt key
    obtain ⟨v,hv⟩ := isSome_iff_exists.mp (hsome (p.counterPos key%width))
    obtain ⟨-,hall,hmax⟩ := maxFrom_eq_some hw hv
    rw [mod_mod] at hall hmax
    have hupper (k : Nat) (hk : k < p.counterNum) (hmod : k%width=p.counterPos key%width) :
        l.counters k≤v := hall k (hmod ▸ mod_le k width) hk hmod
    have hown := hupper _ hkey rfl
    simp only [queryCompressedPart,hv,getD_some]
    refine ⟨⟨?_,?_⟩,?_⟩
    · obtain rfl | hmax := hmax
      · exact ⟨_,hkey,rfl,BitVec.le_antisymm hown (Nat.zero_le _)⟩
      · exact hmax
    · rintro c ⟨k,hk,hmod,rfl⟩
      exact hupper k hk hmod
    · rw [query,BitVec.toNat_setWidth]
      exact Nat.le_trans (mod_le _ _) hown

private def oneGap : Params := ⟨1,5,fun _ => 0,id,Nat.one_pos,by decide⟩

theorem compresses_oneGap : Compresses oneGap ⟨fun j => j,fun _ => 0⟩ 2 :=
  (compresses_iff oneGap _ (by decide) (by decide)).mpr (by decide)

private def largest : Params := ⟨1,2^31-1,fun _ => 0,id,Nat.one_pos,by decide⟩

theorem not_compresses_largest : ¬Compresses largest .init 1 := by
  rintro ⟨part,hpart,-⟩
  have hfits := fits_of_compress (by decide) (by decide) (isSome_iff_exists.mpr ⟨part,hpart⟩)
  exact absurd hfits (by decide)
end P4Benchmarks.Elastic
