import Mathlib.Data.Int.ModEq
import Mathlib.Data.Nat.Bitwise
/-!
# Intervals of integers

Bounds for functions of two numbers, for results that are reduced modulo a power of two, and for
bitwise operators.
-/
namespace P4Benchmarks.Lib
structure Span where
  (lo hi : Int)
deriving DecidableEq

namespace Span
instance : Membership Int Span := ⟨fun A z => A.lo≤z ∧ z≤A.hi⟩
instance : LE Span := ⟨fun A B => B.lo≤A.lo ∧ A.hi≤B.hi⟩
instance (A B : Span) : Decidable (A≤B) := inferInstanceAs (Decidable (_ ∧ _))
variable {A B : Span} {x y z r low size : Int}

theorem mem_of_le (h : A≤B) (hz : z∈A) : z∈B := ⟨h.1.trans hz.1,hz.2.trans h.2⟩

/-- The least and the largest value at the ends of two intervals. -/
def corners (f : Int → Int → Int) (A B : Span) : Span :=
  ⟨min (min (f A.lo B.lo) (f A.lo B.hi)) (min (f A.hi B.lo) (f A.hi B.hi)),
    max (max (f A.lo B.lo) (f A.lo B.hi)) (max (f A.hi B.lo) (f A.hi B.hi))⟩

def OneWay (g : Int → Int) : Prop := (∀ x y, x≤y → g x≤g y) ∨ ∀ x y, x≤y → g y≤g x

private theorem between_ends {g : Int → Int} (hg : OneWay g) (hx : x∈A) :
    min (g A.lo) (g A.hi)≤g x ∧ g x ≤ max (g A.lo) (g A.hi) := by
  obtain ⟨hlo,hhi⟩ := hx
  rcases hg with hg | hg
  · exact ⟨min_le_of_left_le (hg _ _ hlo),le_max_of_le_right (hg _ _ hhi)⟩
  · exact ⟨min_le_of_right_le (hg _ _ hhi),le_max_of_le_left (hg _ _ hlo)⟩

/-- A function that is monotone or antitone in each argument takes its extremes at the corners. -/
theorem mem_corners {f : Int → Int → Int} (hleft : ∀ y∈B, OneWay (f · y)) (hright : ∀ x, OneWay (f x))
    (hx : x∈A) (hy : y∈B) : f x y∈corners f A B := by
  have hxy := between_ends (hleft y hy) hx
  have hlo := between_ends (hright A.lo) hy
  have hhi := between_ends (hright A.hi) hy
  exact ⟨(min_le_min hlo.1 hhi.1).trans hxy.1,hxy.2.trans (max_le_max hlo.2 hhi.2)⟩

/-- Where the numbers of an interval go that are reduced to `[low, low + size)`: they move together, or
can go anywhere. -/
def residues (low size : Int) (A : Span) : Span :=
  let q := (A.lo-low)/size
  if (A.hi-low)/size=q then ⟨A.lo-q*size,A.hi-q*size⟩ else ⟨low,low+size-1⟩

theorem mem_residues (hz : z∈A) (hsize : 0 < size) (hr : low ≤ r ∧ r<low+size) (hmod : r≡z [ZMOD size]) :
    r∈A.residues low size := by
  have hr' : r=z-(z-low)/size*size := by
    have hrem : r-low=(z-low)%size := by
      rw [← (hmod.sub_right low).eq,Int.emod_eq_of_lt (by omega) (by omega)]
    rw [Int.emod_def,mul_comm] at hrem
    omega
  rw [residues]
  split_ifs with hq
  · have hlo : (A.lo-low)/size≤(z-low)/size := Int.ediv_le_ediv hsize (Int.sub_le_sub_right hz.1 _)
    have hhi : (z-low)/size≤(A.hi-low)/size := Int.ediv_le_ediv hsize (Int.sub_le_sub_right hz.2 _)
    rw [hr',le_antisymm (hq ▸ hhi) hlo]
    exact ⟨Int.sub_le_sub_right hz.1 _,Int.sub_le_sub_right hz.2 _⟩
  · exact ⟨hr.1,by change r≤low+size-1; omega⟩

end Span

section Bitwise
variable {lo hi lo' hi' a b : Nat}

private theorem highest_difference {x y : Nat} (h : x<y) : ∃ i, x.testBit i=false ∧ y.testBit i=true ∧
    ∀ j, i<j → x.testBit j=y.testBit j := by
  obtain ⟨i,hi,habove⟩ := Nat.exists_most_significant_bit (n := x^^^y) (by simpa using h.ne)
  have hagree : ∀ j, i<j → x.testBit j=y.testBit j := fun j hj => by simpa using habove j hj
  rw [Nat.testBit_xor] at hi
  cases hx : x.testBit i with
  | false => exact ⟨i,hx,by simpa [hx] using hi,hagree⟩
  | true =>
    have hy : y.testBit i=false := by simpa [hx] using hi
    exact absurd (Nat.lt_of_testBit i hy hx fun j hj => (hagree j hj).symm) h.not_gt

/-- The least number above `lo` with this bit, where `lo` does not have it. -/
def raised (lo bit : Nat) : Nat := (lo/2^bit+1)*2^bit

/-- A number of the interval without a bit of its lower end has a higher one that the end has not. -/
private theorem exists_raised {m : Nat} (hle : lo≤a) (hlo : lo.testBit m=true) (ha : a.testBit m=false) :
    ∃ n, m<n ∧ lo.testBit n=false ∧ a.testBit n=true ∧ raised lo n≤a ∧
      ∀ j, n<j → lo.testBit j=a.testBit j := by
  obtain ⟨n,hlon,han,habove⟩ := highest_difference
    (hle.lt_of_ne fun h => by rw [h,ha] at hlo; exact absurd hlo (by decide))
  have hmn : m<n := by
    rcases lt_trichotomy m n with h | rfl | h
    · exact h
    · rw [hlo] at hlon
      exact absurd hlon (by decide)
    · rw [habove m h,ha] at hlo
      exact absurd hlo (by decide)
  refine ⟨n,hmn,hlon,han,?_,habove⟩
  have hhigh : lo/2^n/2=a/2^n/2 := by
    rw [Nat.div_div_eq_div_mul,Nat.div_div_eq_div_mul,← pow_succ]
    refine Nat.eq_of_testBit_eq fun j => ?_
    rw [Nat.testBit_div_two_pow,Nat.testBit_div_two_pow]
    exact habove _ (by omega)
  rw [Nat.testBit_eq_decide_div_mod_eq,decide_eq_false_iff_not] at hlon
  rw [Nat.testBit_eq_decide_div_mod_eq,decide_eq_true_eq] at han
  calc raised lo n=a/2^n*2^n := by rw [raised,show lo/2^n+1=a/2^n by omega]
    _≤a := Nat.div_mul_le_self a _

/-- The least conjunction is that of the lower ends unless a bit that both are without can be had. -/
def AndAtEnds (lo hi lo' hi' : Nat) : Prop :=
  ∀ m<64, lo.testBit m=false → lo'.testBit m=false → raised lo m≤hi ∨ raised lo' m≤hi' → (lo&&&lo')%2^m=0

instance : Decidable (AndAtEnds lo hi lo' hi') := inferInstanceAs (Decidable (∀ m<64, _))

private theorem bit_lt {m : Nat} (ha : a<2^64) (h : a.testBit m=true) : m<64 := by
  by_contra hge
  have hle : 2^64≤2^m := Nat.pow_le_pow_right (by decide) (by omega)
  rw [Nat.testBit_lt_two_pow (ha.trans_le hle)] at h
  exact absurd h (by decide)

private theorem and_false_of_raised {m : Nat} (h : AndAtEnds lo hi lo' hi') (hlo : lo≤a) (hhi : a≤hi)
    (hlo' : lo'≤b) (hhi' : b≤hi') (ha : a<2^64) (hb : b<2^64)
    (habove : ∀ j, m<j → (a&&&b).testBit j=(lo&&&lo').testBit j) (hm : (lo&&&lo').testBit m=true)
    (ham : a.testBit m=false) : False := by
  have hlom : lo.testBit m=true := by simp_all
  have hzero (n : Nat) (hmn : m<n) : (lo&&&lo')%2^n≠0 := fun hz => by
    have hbit := congrArg (Nat.testBit · m) hz
    rw [Nat.testBit_mod_two_pow] at hbit
    simp_all
  obtain ⟨n,hmn,hlon,han,hraised,hsame⟩ := exists_raised hlo hlom ham
  have hbn : b.testBit n=false := by simpa [hlon,han] using habove n hmn
  cases hn' : lo'.testBit n with
  | false => exact hzero n hmn (h n (bit_lt ha han) hlon hn' (.inl (hraised.trans hhi)))
  | true =>
    obtain ⟨k,hnk,hlok,hbk,hraised',-⟩ := exists_raised hlo' hn' hbn
    have hak : a.testBit k=false := by simpa [hlok,hbk] using habove k (hmn.trans hnk)
    exact hzero k (hmn.trans hnk)
      (h k (bit_lt hb hbk) ((hsame k hnk).trans hak) hlok (.inr (hraised'.trans hhi')))

theorem and_ends_le (h : AndAtEnds lo hi lo' hi') (ha : lo≤a ∧ a≤hi) (hb : lo'≤b ∧ b≤hi')
    (ha64 : a<2^64) (hb64 : b<2^64) : lo&&&lo'≤a&&&b := by
  by_contra hlt
  obtain ⟨m,hab,hm,habove⟩ := highest_difference (Nat.lt_of_not_le hlt)
  rw [Nat.testBit_and,Bool.and_eq_false_iff] at hab
  rcases hab with ham | hbm
  · exact and_false_of_raised h ha.1 ha.2 hb.1 hb.2 ha64 hb64 habove hm ham
  · refine and_false_of_raised (fun n hn h1 h2 hr => ?_) hb.1 hb.2 ha.1 ha.2 hb64 ha64
      (by simpa only [Nat.and_comm] using habove) (by rwa [Nat.and_comm]) hbm
    rw [Nat.and_comm]
    exact h n hn h2 h1 hr.symm

/-- The least disjunction is that of the lower ends if an end that gets a bit from the other interval
only loses bits that the other end has. -/
def OrAtEnds (lo hi lo' hi' : Nat) : Prop :=
  ∀ m<64, (lo.testBit m=false → lo'.testBit m=true → raised lo m≤hi → lo%2^m&&&lo'=lo%2^m) ∧
    (lo'.testBit m=false → lo.testBit m=true → raised lo' m≤hi' → lo'%2^m&&&lo=lo'%2^m)

instance : Decidable (OrAtEnds lo hi lo' hi') := inferInstanceAs (Decidable (∀ m<64, _))

private theorem or_false_of_raised {m : Nat} (h : OrAtEnds lo hi lo' hi') (ha : lo≤a ∧ a≤hi)
    (hb : lo'≤b ∧ b≤hi') (ha64 : a<2^64) (hb64 : b<2^64)
    (habove : ∀ j, m<j → (a|||b).testBit j=(lo|||lo').testBit j) (hlom : lo.testBit m=true)
    (ham : a.testBit m=false) (hbm : b.testBit m=false) : False := by
  have hsubset {x y n k : Nat} (hxy : x%2^n&&&y=x%2^n) (hk : k<n) (hx : x.testBit k=true) :
      y.testBit k=true := by
    have hbit := congrArg (Nat.testBit · k) hxy
    simpa [hk,hx] using hbit
  obtain ⟨n,hmn,hlon,han,hraised,-⟩ := exists_raised ha.1 hlom ham
  have hlon' : lo'.testBit n=true := by simpa [hlon,han] using (habove n hmn).symm
  have hkept := (h n (bit_lt ha64 han)).1 hlon hlon' (hraised.trans ha.2)
  -- The other end has the bit as well, and its number is raised in turn.
  obtain ⟨k,hmk,hlok',hbk,hraised',-⟩ := exists_raised hb.1 (hsubset hkept hmn hlom) hbm
  have hlok : lo.testBit k=true := by simpa [hlok',hbk] using (habove k hmk).symm
  have hkept' := (h k (bit_lt hb64 hbk)).2 hlok' hlok (hraised'.trans hb.2)
  rcases lt_trichotomy n k with hnk | rfl | hkn
  · simp [hsubset hkept' hnk hlon'] at hlon
  · simp [hlok] at hlon
  · simp [hsubset hkept hkn hlok] at hlok'

theorem or_ends_le (h : OrAtEnds lo hi lo' hi') (ha : lo≤a ∧ a≤hi) (hb : lo'≤b ∧ b≤hi')
    (ha64 : a<2^64) (hb64 : b<2^64) : lo|||lo'≤a|||b := by
  by_contra hlt
  obtain ⟨m,hab,hm,habove⟩ := highest_difference (Nat.lt_of_not_le hlt)
  rw [Nat.testBit_or,Bool.or_eq_false_iff] at hab
  rw [Nat.testBit_or,Bool.or_eq_true] at hm
  rcases hm with hm | hm
  · exact or_false_of_raised h ha hb ha64 hb64 habove hm hab.1 hab.2
  · exact or_false_of_raised (fun n hn => (h n hn).symm) hb ha hb64 ha64
      (by simpa only [Nat.or_comm] using habove) hm hab.2 hab.1

end Bitwise
end P4Benchmarks.Lib
