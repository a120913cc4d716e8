import Mathlib.Data.BitVec
import Mathlib.Order.Bounds.Basic
import P4Benchmarks.Lib.LinearSketch
import P4Benchmarks.P4rtOvs.Hashing
/-!
# The count-min map

`ubpf_countmin.c`.  Row `i` of the sketch belongs to hash function `i`.  The source calls the number
of hash functions `nb_columns` and the number of buckets in a row `nb_rows`.
-/
namespace P4Benchmarks.P4rtOvs
open Lib List BitVec Nat Lookup3
structure CountminSketch where
  (nbColumns nbRows : BitVec 32)
  allocated : Nat
  counters : Nat → BitVec 32
variable (H : Lookup3) (d : MapDef)
def sizeBitmap : BitVec 32 := .ofNat 32 (4*d.nbHashFunctions.toNat*d.maxEntries.toNat)

/-- `ubpf_countmin_create`.  A negative size becomes a huge one, for which neither `xmalloc` nor
`memset` returns. -/
def countminCreate : Option CountminSketch :=
  if (sizeBitmap d).msb then none
  else some ⟨d.nbHashFunctions,d.maxEntries,(sizeBitmap d).toNat/4,fun _ => 0⟩
variable (cm : CountminSketch)
def countminIndex (h : BitVec 32 × BitVec 32) (i : Nat) : Nat :=
  (.ofNat 32 i*cm.nbColumns+roundHash h i%cm.nbRows).toNat
variable (value : d.Value)
/-- The loop of `ubpf_countmin_lookup`: the minimum so far, and whether the next counter exists. -/
def countminLookup : Option (BitVec 32) :=
  let h := H.hashes cm.nbColumns value.toList
  exec (fun count i => if countminIndex cm h i < cm.allocated then
      some (if count < cm.counters (countminIndex cm h i) then count
        else cm.counters (countminIndex cm h i)) else none)
    (allOnes 32) (List.range cm.nbColumns.toNat)

def countminAdd : Option CountminSketch :=
  let h := H.hashes cm.nbColumns value.toList
  (exec (fun counters i => if countminIndex cm h i < cm.allocated then
      some (Function.update counters (countminIndex cm h i) (counters (countminIndex cm h i)+1)) else none)
    cm.counters (List.range cm.nbColumns.toNat)).map fun counters => { cm with counters := counters }

def bucket (i : Nat) : BitVec 32 := roundHash (H.hashes d.nbHashFunctions value.toList) i%d.maxEntries

def rowCount (values : List d.Value) (value : d.Value) (i : Nat) : Nat :=
  values.countP fun v => bucket H d v i=bucket H d value i

/-- Every run of fewer than `2^32` adds stays inside the counters, and the estimate for a value is
the least of its row counts, so at least the number of its own adds. -/
def CountminExact : Prop :=
  ∃ cm, countminCreate d=some cm ∧ ∀ values : List d.Value, values.length<2^32 →
    ∃ cm', exec (countminAdd H d) cm values=some cm' ∧ ∀ value, ∃ count, countminLookup H d cm' value=some count ∧
        IsLeast (rowCount H d values value '' Set.Iio d.nbHashFunctions.toNat) count.toNat ∧
        values.count value ≤ count.toNat

def cells : List Nat :=
  (List.range cm.nbColumns.toNat).map (countminIndex cm (H.hashes cm.nbColumns value.toList))

def InBounds : Prop := ∀ k ∈ cells H d cm value, k < cm.allocated

instance (cm : CountminSketch) (value : d.Value) : Decidable (InBounds H d cm value) :=
  inferInstanceAs (Decidable (∀ _ ∈ _, _))
variable {H d}
theorem countminAdd_eq : countminAdd H d cm value = if InBounds H d cm value then
      some { cm with counters := bump cm.counters (cells H d cm value) 1 } else none := by
  simp only [countminAdd,exec_guard,InBounds,cells,forall_mem_map,bump,foldl_map]
  split <;> rfl

theorem countminLookup_eq : countminLookup H d cm value = if InBounds H d cm value then
      some ((cells H d cm value).foldl (fun count k =>
        if count < cm.counters k then count else cm.counters k) (allOnes 32)) else none := by
  simp only [countminLookup,exec_guard,InBounds,cells,forall_mem_map,foldl_map]
variable {cm : CountminSketch}
theorem exec_countminAdd {values : List d.Value} (hin : ∀ value ∈ values, InBounds H d cm value) :
    ∃ counters, exec (countminAdd H d) cm values=some { cm with counters := counters } ∧ ∀ k, counters k =
        cm.counters k+((values.map fun v => (cells H d cm v).count k).sum : Nat) := by
  induction values generalizing cm with
  | nil => exact ⟨cm.counters,rfl,by simp⟩
  | cons value values ih =>
    rw [forall_mem_cons] at hin
    have hrest : ∀ v ∈ values, InBounds H d { cm with counters := bump cm.counters (cells H d cm value) 1 } v := hin.2
    obtain ⟨counters,hrun,hcounters⟩ := ih hrest
    refine ⟨counters,?_,fun k => ?_⟩
    · rw [exec_cons,countminAdd_eq,if_pos hin.1]
      exact hrun
    · have hcells (v : d.Value) : cells H d { cm with
          counters := bump cm.counters (cells H d cm value) 1 } v=cells H d cm v := rfl
      simp only [hcounters,hcells,bump_apply,nsmul_one,map_cons,sum_cons,cast_add,add_assoc]
variable (g : Nat → BitVec 32)
theorem foldl_min_le (l : List Nat) (a : BitVec 32) :
    (l.foldl (fun count k => if count<g k then count else g k) a).toNat≤a.toNat ∧
      (∀ k ∈ l, (l.foldl (fun count k => if count<g k then count else g k) a).toNat ≤ (g k).toNat) ∧
      (l.foldl (fun count k => if count<g k then count else g k) a=a ∨
        ∃ k ∈ l, l.foldl (fun count k => if count<g k then count else g k) a=g k) := by
  induction l generalizing a with
  | nil => simp
  | cons k l ih =>
    rw [foldl_cons]
    obtain ⟨hle,hall,hmem⟩ := ih (if a<g k then a else g k)
    have hmin : (if a<g k then a else g k).toNat≤a.toNat ∧ (if a<g k then a else g k).toNat≤(g k).toNat := by
      split_ifs with h
      · exact ⟨le_rfl,Nat.le_of_lt h⟩
      · exact ⟨Nat.le_of_not_lt h,le_rfl⟩
    refine ⟨hle.trans hmin.1,?_,?_⟩
    · simp only [mem_cons,forall_eq_or_imp]
      exact ⟨hle.trans hmin.2,hall⟩
    · rcases hmem with h | ⟨j,hj,h⟩
      · rw [h]
        split_ifs
        · exact .inl rfl
        · exact .inr ⟨k,mem_cons_self,rfl⟩
      · exact .inr ⟨j,mem_cons_of_mem _ hj,h⟩

theorem foldl_min_isLeast {l : List Nat} (hl : l≠[]) : IsLeast ((fun k => (g k).toNat) '' {k | k ∈ l})
      (l.foldl (fun count k => if count<g k then count else g k) (allOnes 32)).toNat := by
  obtain ⟨-,hall,hmem⟩ := foldl_min_le g l (allOnes 32)
  constructor
  · rcases hmem with h | ⟨k,hk,h⟩
    · -- then all counters are at the maximum
      obtain ⟨k,hk⟩ := exists_mem_of_ne_nil l hl
      refine ⟨k,hk,?_⟩
      have hle := hall k hk
      rw [h,toNat_allOnes] at hle ⊢
      dsimp only
      omega
    · exact ⟨k,hk,by rw [h]⟩
  · rintro _ ⟨k,hk,rfl⟩
    exact hall k hk

theorem sum_map_ite_eq_countP {α : Type} (p : α → Prop) [DecidablePred p] (l : List α) :
    (l.map fun a => if p a then 1 else 0).sum=l.countP p := by
  induction l with
  | nil => rfl
  | cons a l ih =>
    by_cases h : p a
    · simp [h,ih,Nat.add_comm]
    · simp [h,ih]

def CountminFits (d : MapDef) : Prop :=
  (d.nbHashFunctions=1 ∨ d.nbHashFunctions=d.maxEntries) ∧ 4*d.nbHashFunctions.toNat*d.maxEntries.toNat<2^31

instance : Decidable (CountminFits d) := inferInstanceAs (Decidable (_ ∧ _))

def fullSketch (d : MapDef) (counters : Nat → BitVec 32) : CountminSketch :=
  ⟨d.nbHashFunctions,d.maxEntries,d.nbHashFunctions.toNat*d.maxEntries.toNat,counters⟩

theorem countminCreate_of_lt (h : 4*d.nbHashFunctions.toNat*d.maxEntries.toNat<2^31) :
    countminCreate d=some (fullSketch d fun _ => 0) := by
  have hsize : (sizeBitmap d).toNat=4*d.nbHashFunctions.toNat*d.maxEntries.toNat := by
    rw [sizeBitmap,toNat_ofNat]
    omega
  have hmsb : (sizeBitmap d).msb=false := by
    rw [msb_eq_false_iff_two_mul_lt,hsize]
    omega
  have hdiv : (sizeBitmap d).toNat/4=d.nbHashFunctions.toNat*d.maxEntries.toNat := by
    rw [hsize,Nat.mul_assoc]
    exact Nat.mul_div_cancel_left _ (by decide)
  rw [countminCreate,hmsb,hdiv]
  rfl
variable {i : Nat}
theorem countminIndex_eq {h : BitVec 32 × BitVec 32}
    (hlt : i*cm.nbColumns.toNat+(roundHash h i%cm.nbRows).toNat<2^32) :
    countminIndex cm h i=i*cm.nbColumns.toNat+(roundHash h i%cm.nbRows).toNat := by
  have hmul : i*cm.nbColumns.toNat<2^32 := by omega
  rw [countminIndex,toNat_add,toNat_mul,toNat_ofNat,mod_mul_mod,mod_eq_of_lt hmul,mod_eq_of_lt hlt]

theorem row_unique {c r i j b b' : Nat} (hcr : c=1 ∨ c=r) (hi : i < c) (hj : j < c)
    (hb : b < r) (hb' : b' < r) : i*c+b=j*c+b' ↔ i=j ∧ b=b' := by
  constructor
  · intro h
    rcases hcr with rfl | rfl
    · omega
    · have hij : i=j := by
        have hdiv := congrArg (· / c) h
        simpa [Nat.mul_comm _ c,mul_add_div (zero_lt_of_lt hi),div_eq_of_lt hb,div_eq_of_lt hb'] using hdiv
      subst hij
      exact ⟨rfl,Nat.add_left_cancel h⟩
  · rintro ⟨rfl,rfl⟩
    rfl

theorem row_lt {c r i b : Nat} (hcr : c=1 ∨ c=r) (hi : i < c) (hb : b < r) : i*c+b < c*r := by
  rcases hcr with rfl | rfl
  · omega
  · calc i*c+b < i*c+c := Nat.add_lt_add_left hb _
      _=(i+1)*c := (Nat.succ_mul i c).symm
      _ ≤ c*c := Nat.mul_le_mul_right c hi

theorem bucket_lt (hpos : 0<d.maxEntries.toNat) (value : d.Value) (i : Nat) :
    (bucket H d value i).toNat<d.maxEntries.toNat := by
  exact mod_lt _ hpos

theorem CountminFits.columns (hfits : CountminFits d) :
    d.nbHashFunctions.toNat=1 ∨ d.nbHashFunctions.toNat=d.maxEntries.toNat :=
  hfits.1.imp (congrArg BitVec.toNat) (congrArg BitVec.toNat)
section
variable (hfits : CountminFits d) (hpos : 0<d.maxEntries.toNat) (counters : Nat → BitVec 32)
include hfits hpos counters
variable (value : d.Value)
theorem countminIndex_of_fits (hi : i<d.nbHashFunctions.toNat) :
    countminIndex (fullSketch d counters) (H.hashes d.nbHashFunctions value.toList) i =
      i*d.nbHashFunctions.toNat+(bucket H d value i).toNat := by
  have hlt := row_lt hfits.columns hi (bucket_lt (H := H) hpos value i)
  have hsize := hfits.2
  rw [Nat.mul_assoc] at hsize
  apply countminIndex_eq
  change i*d.nbHashFunctions.toNat+(bucket H d value i).toNat<2^32
  omega

theorem mem_cells_of_fits {k : Nat} : k ∈ cells H d (fullSketch d counters) value ↔ ∃ i<d.nbHashFunctions.toNat,
      k=i*d.nbHashFunctions.toNat+(bucket H d value i).toNat := by
  simp only [cells,mem_map,mem_range]
  constructor
  all_goals
    rintro ⟨i,hi,rfl⟩
    exact ⟨i,hi,countminIndex_of_fits hfits hpos counters value hi⟩

theorem inBounds_of_fits : InBounds H d (fullSketch d counters) value := by
  intro k hk
  obtain ⟨i,hi,rfl⟩ := (mem_cells_of_fits hfits hpos counters value).mp hk
  exact row_lt hfits.columns hi (bucket_lt hpos value i)

theorem count_cells_of_fits (v value : d.Value) (hi : i<d.nbHashFunctions.toNat) :
    (cells H d (fullSketch d counters) v).count (i*d.nbHashFunctions.toNat+(bucket H d value i).toNat) =
      if bucket H d v i=bucket H d value i then 1 else 0 := by
  have hnodup : (cells H d (fullSketch d counters) v).Nodup := by
    apply List.Nodup.map_on _ nodup_range
    intro j hj k hk heq
    rw [mem_range] at hj hk
    have heq := (countminIndex_of_fits hfits hpos counters v hj).symm.trans
      (heq.trans (countminIndex_of_fits hfits hpos counters v hk))
    exact ((row_unique hfits.columns hj hk (bucket_lt hpos v j) (bucket_lt hpos v k)).mp heq).1
  rw [hnodup.count]
  apply if_congr _ rfl rfl
  rw [mem_cells_of_fits hfits hpos]
  constructor
  · rintro ⟨j,hj,heq⟩
    obtain ⟨rfl,hb⟩ := (row_unique hfits.columns hi hj (bucket_lt hpos value i) (bucket_lt hpos v j)).mp heq
    exact eq_of_toNat_eq hb.symm
  · intro heq
    exact ⟨i,hi,by rw [heq]⟩
end

theorem countminExact_of_fits (hfits : CountminFits d) (hnb : 0<d.nbHashFunctions.toNat)
    (hpos : 0<d.maxEntries.toNat) : CountminExact H d := by
  refine ⟨_,countminCreate_of_lt hfits.2,fun values hlen => ?_⟩
  have hin : ∀ v ∈ values, InBounds H d (fullSketch d fun _ => 0) v :=
    fun v _ => inBounds_of_fits hfits hpos (fun _ => 0) v
  obtain ⟨counters,hrun,hcounters⟩ := exec_countminAdd hin
  refine ⟨fullSketch d counters,hrun,fun value => ?_⟩
  have hcounter : ∀ i<d.nbHashFunctions.toNat, (counters (i*d.nbHashFunctions.toNat+(bucket H d value i).toNat)).toNat =
        rowCount H d values value i := by
    intro i hi
    have hle : rowCount H d values value i≤values.length := countP_le_length
    rw [hcounters]
    simp only [count_cells_of_fits hfits hpos _ _ _ hi,sum_map_ite_eq_countP]
    change ((0 : BitVec 32)+((rowCount H d values value i : Nat) : BitVec 32)).toNat=_
    rw [zero_add,natCast_eq_ofNat,toNat_ofNat]
    omega
  have hne : cells H d (fullSketch d counters) value≠[] := by simp [cells,fullSketch,Nat.pos_iff_ne_zero.mp hnb]
  have hleast := foldl_min_isLeast counters hne
  have himage : (fun k => (counters k).toNat) '' {k | k ∈ cells H d (fullSketch d counters) value} =
      rowCount H d values value '' Set.Iio d.nbHashFunctions.toNat := by
    ext n
    simp only [Set.mem_image,Set.mem_ofPred_eq,mem_cells_of_fits hfits hpos,Set.mem_Iio]
    constructor
    · rintro ⟨_,⟨i,hi,rfl⟩,rfl⟩
      exact ⟨i,hi,(hcounter i hi).symm⟩
    · rintro ⟨i,hi,rfl⟩
      exact ⟨_,⟨i,hi,rfl⟩,hcounter i hi⟩
  rw [himage] at hleast
  refine ⟨_,?_,hleast,?_⟩
  · rw [countminLookup_eq,if_pos (inBounds_of_fits hfits hpos counters value)]
    rfl
  · obtain ⟨i,-,hi⟩ := hleast.1
    rw [← hi]
    apply countP_mono_left
    intro v _ hv
    simp only [beq_iff_eq] at hv
    simp [hv]

theorem countminCreate_eq_some (h : countminCreate d=some cm) :
    cm=⟨d.nbHashFunctions,d.maxEntries,cm.allocated,fun _ => 0⟩ ∧ cm.allocated<2^29 ∧
      (cm.allocated=d.nbHashFunctions.toNat*d.maxEntries.toNat ∨
        cm.allocated+2^30≤d.nbHashFunctions.toNat*d.maxEntries.toNat) := by
  unfold countminCreate at h
  split_ifs at h with hmsb
  cases h
  rw [Bool.not_eq_true,msb_eq_false_iff_two_mul_lt] at hmsb
  have hsize : (sizeBitmap d).toNat = 4*(d.nbHashFunctions.toNat*d.maxEntries.toNat)%2^32 := by
    rw [sizeBitmap,toNat_ofNat,Nat.mul_assoc]
  refine ⟨rfl,?_,?_⟩
  · dsimp only
    omega
  · dsimp only
    omega

theorem inBounds_of_exact (h : CountminExact H d)
    (hcreate : countminCreate d=some cm) (value : d.Value) : InBounds H d cm value := by
  obtain ⟨cm',hcreate',h⟩ := h
  cases hcreate.symm.trans hcreate'
  obtain ⟨cm',hrun,h⟩ := h [] (by simp)
  cases hrun
  obtain ⟨count,hlookup,-⟩ := h value
  rw [countminLookup_eq] at hlookup
  by_contra hout
  rw [if_neg hout] at hlookup
  cases hlookup

theorem hashes_const (nb h1 h2 : BitVec 32) (value : List Byte) :
    (const h1 h2).hashes nb value=(h1,if nb=1 then 0 else h2) := by
  simp only [hashes,const]
  split_ifs <;> rfl

theorem roundHash_zero (h1 : BitVec 32) (hi : i≠1) : roundHash (h1,0) i=h1 := by
  match i, hi with
  | 0, _ => rfl
  | i+2, _ => simp [roundHash]

theorem last_row_lt {alloc c : Nat} (hc : 0 < c) (hlt : c<2^32) (halloc : alloc<2^29)
    (h : ∀ i < c, i*c%2^32<alloc) : (c-1)*c<alloc := by
  by_contra hge
  have hmul : (c-1)*c+c=c*c := by
    rw [← Nat.succ_mul]
    congr 1
    omega
  -- the first row that starts outside
  have hle : (alloc+c-1)/c*c≤alloc+c-1 := div_mul_le_self _ _
  have hgt : alloc+c-1<(alloc+c-1)/c*c+c := lt_div_mul_add hc
  have hrow : (alloc+c-1)/c < c := by
    apply Nat.lt_of_mul_lt_mul_right (a := c)
    omega
  have hone : (alloc+c-1)/c*c<2^32 := by
    by_cases hbig : alloc < c
    · have hdiv : (alloc+c-1)/c≤1 := by
        apply le_of_lt_succ
        rw [Nat.div_lt_iff_lt_mul hc]
        omega
      calc (alloc+c-1)/c*c≤1*c := Nat.mul_le_mul_right c hdiv
        _<2^32 := by omega
    · omega
  have hbad := h _ hrow
  omega

theorem last_row_of_exact (h : ∀ H, CountminExact H d) (hcreate : countminCreate d=some cm)
    (hnb : 0<d.nbHashFunctions.toNat) : (d.nbHashFunctions.toNat-1)*d.nbHashFunctions.toNat < cm.allocated := by
  obtain ⟨hcm,halloc,-⟩ := countminCreate_eq_some hcreate
  apply last_row_lt hnb d.nbHashFunctions.isLt halloc
  intro i hi
  have hin := inBounds_of_exact (h (.const 0 0)) hcreate (Vector.replicate _ 0)
  have hcell := hin (countminIndex cm ((const 0 0).hashes cm.nbColumns
    (Vector.replicate d.valueSize.toNat (0 : Byte)).toList) i)
    (mem_map_of_mem (mem_range.mpr (by rw [hcm]; exact hi)))
  have hindex : ∀ (x : BitVec 32 × BitVec 32), x=(0,0) → countminIndex cm x i = i*d.nbHashFunctions.toNat%2^32 := by
    rintro _ rfl
    have hround : roundHash (0,0) i=0 := by
      by_cases h1 : i=1
      · rw [h1]
        rfl
      · exact roundHash_zero 0 h1
    rw [countminIndex,hround,hcm]
    simp
  rwa [hindex] at hcell
  rw [hashes_const]
  simp

theorem first_row_of_exact (h : ∀ H, CountminExact H d) (hcreate : countminCreate d=some cm)
    (hnb : 0<d.nbHashFunctions.toNat) (hpos : 0<d.maxEntries.toNat) : d.maxEntries.toNat ≤ cm.allocated := by
  obtain ⟨hcm,-⟩ := countminCreate_eq_some hcreate
  have hin := inBounds_of_exact (h (.const (d.maxEntries-1) 0)) hcreate (Vector.replicate _ 0)
  have hcell := hin (countminIndex cm ((const (d.maxEntries-1) 0).hashes cm.nbColumns
    (Vector.replicate d.valueSize.toNat (0 : Byte)).toList) 0)
    (mem_map_of_mem (mem_range.mpr (by rw [hcm]; exact hnb)))
  have hpred : (d.maxEntries-1).toNat=d.maxEntries.toNat-1 := by
    rw [toNat_sub,show (1 : BitVec 32).toNat=1 from rfl]
    omega
  have hindex : countminIndex cm ((const (d.maxEntries-1) 0).hashes cm.nbColumns
      (Vector.replicate d.valueSize.toNat (0 : Byte)).toList) 0=d.maxEntries.toNat-1 := by
    rw [hashes_const,hcm,countminIndex]
    simp only [roundHash,zero_mul,BitVec.zero_add,toNat_umod,hpred]
    exact mod_eq_of_lt (by omega)
  omega
section
variable (hcreate : countminCreate d=some cm) (hnb : 2≤d.nbHashFunctions.toNat)
  (hlt : d.nbHashFunctions.toNat<d.maxEntries.toNat)
  (hlast : (d.nbHashFunctions.toNat-1)*d.nbHashFunctions.toNat < cm.allocated)
include hcreate hnb hlt hlast
theorem cells_of_overlap (value : d.Value) :
    (cells (.const d.nbHashFunctions 0) d cm value).count d.nbHashFunctions.toNat=2 := by
  obtain ⟨hcm,halloc,-⟩ := countminCreate_eq_some hcreate
  obtain ⟨m,hm⟩ := Nat.exists_eq_add_of_le' hnb
  have hmod : (d.nbHashFunctions%d.maxEntries).toNat=m+2 := by rw [toNat_umod,mod_eq_of_lt hlt,hm]
  rw [hm] at hlast
  have hindex : ∀ i ∈ List.range cm.nbColumns.toNat,
      countminIndex cm ((const d.nbHashFunctions 0).hashes cm.nbColumns value.toList) i =
        if i=1 then m+2 else i*(m+2)+(m+2) := by
    intro i hi
    rw [mem_range,hcm] at hi
    have hi : i ≤ m+1 := by
      dsimp only at hi
      omega
    have hmul : i*(m+2)≤(m+1)*(m+2) := Nat.mul_le_mul_right _ hi
    have hm1 : m+2≤(m+1)*(m+2) := Nat.le_mul_of_pos_left _ (succ_pos m)
    have hlast : (m+1)*(m+2) < cm.allocated := hlast
    rw [hashes_const,ite_self,hcm]
    by_cases h1 : i=1
    · subst h1
      rw [countminIndex_eq] <;> simp [roundHash,hm]
      omega
    · rw [if_neg h1,countminIndex_eq]
      · rw [roundHash_zero _ h1,hmod,hm]
      · rw [roundHash_zero _ h1,hmod,hm]
        omega
  rw [cells,map_congr_left hindex,hcm,hm,range_succ_eq_map,range_succ_eq_map]
  simp [count_eq_zero]

theorem not_exact_of_overlap : ¬ CountminExact (.const d.nbHashFunctions 0) d := by
  intro h
  obtain ⟨hcm,halloc,-⟩ := countminCreate_eq_some hcreate
  have hin := inBounds_of_exact h hcreate
  obtain ⟨cm',hcreate',hrun⟩ := h
  cases hcreate.symm.trans hcreate'
  obtain ⟨value⟩ : Nonempty d.Value := ⟨Vector.replicate _ 0⟩
  have hcells := cells_of_overlap hcreate hnb hlt hlast value
  obtain ⟨n,hn⟩ : ∃ n, n=2^31 := ⟨_,rfl⟩
  have hlength : (List.replicate n value).length<2^32 := by
    rw [length_replicate,hn]
    decide
  obtain ⟨cm',hadds,hlookup⟩ := hrun (List.replicate n value) hlength
  obtain ⟨counters,hadds',hcounters⟩ := exec_countminAdd fun v (_ : v ∈ List.replicate n value) =>
    hin v
  cases hadds.symm.trans hadds'
  have hzero : counters d.nbHashFunctions.toNat=0 := by
    have hcast : ((2^31*2 : Nat) : BitVec 32)=0 := by decide
    rw [hcounters,map_replicate,hcells,sum_replicate_nat,hcm,hn,hcast,add_zero]
  obtain ⟨count,hcount,-,hown⟩ := hlookup value
  have hinside : InBounds (.const d.nbHashFunctions 0) d { cm with counters := counters } value := hin value
  rw [countminLookup_eq,if_pos hinside] at hcount
  have hmem : d.nbHashFunctions.toNat ∈ cells (.const d.nbHashFunctions 0) d cm value := by
    rw [← count_pos_iff,hcells]
    decide
  have hle := (foldl_min_le counters (cells (.const d.nbHashFunctions 0) d cm value) (allOnes 32)).2.1 _ hmem
  have hle := (congrArg BitVec.toNat (Option.some.inj hcount)).symm.trans_le hle
  rw [hzero] at hle
  rw [count_replicate_self,hn] at hown
  exact absurd (hown.trans hle) (by decide)
end

theorem countminFits_of_exact (h : ∀ H, CountminExact H d) (hnb : 0<d.nbHashFunctions.toNat)
    (hpos : 0<d.maxEntries.toNat) : CountminFits d := by
  obtain ⟨cm,hcreate,-⟩ := h (.const 0 0)
  obtain ⟨hcm,halloc,hall⟩ := countminCreate_eq_some hcreate
  have hlast := last_row_of_exact h hcreate hnb
  have hsquare : (d.nbHashFunctions.toNat-1)*d.nbHashFunctions.toNat+d.nbHashFunctions.toNat =
      d.nbHashFunctions.toNat*d.nbHashFunctions.toNat := by
    rw [← Nat.succ_mul]
    congr 1
    omega
  have hle : d.nbHashFunctions.toNat≤d.maxEntries.toNat := by
    by_contra hgt
    have hmul := Nat.mul_le_mul_left d.nbHashFunctions.toNat (le_sub_one_of_lt (Nat.lt_of_not_le hgt))
    rw [Nat.mul_comm _ (d.nbHashFunctions.toNat-1)] at hmul
    omega
  have hcolumns : d.nbHashFunctions=1 ∨ d.nbHashFunctions=d.maxEntries := by
    by_cases h1 : d.nbHashFunctions.toNat=1
    · exact .inl (eq_of_toNat_eq h1)
    · right
      by_contra hne
      have hne : d.nbHashFunctions.toNat≠d.maxEntries.toNat := fun h => hne (eq_of_toNat_eq h)
      exact not_exact_of_overlap hcreate (by omega) (by omega) hlast (h _)
  refine ⟨hcolumns,?_⟩
  have hfull : cm.allocated=d.nbHashFunctions.toNat*d.maxEntries.toNat := by
    rcases hcolumns with h1 | heq
    · have hrow := first_row_of_exact h hcreate hnb hpos
      rw [h1] at hall ⊢
      simp only [ofNat_eq_ofNat,toNat_ofNat,one_mod,Nat.one_mul] at hall ⊢
      omega
    · rw [← heq] at hall ⊢
      rcases hall with hall | hall
      · exact hall
      · have hbig := Nat.mul_le_mul_left (d.nbHashFunctions.toNat-1)
          (show 2^30≤d.nbHashFunctions.toNat by omega)
        omega
  rw [Nat.mul_assoc,← hfull]
  omega

/-- The estimates are exact, for all hash functions, exactly if there is one row or as many rows as
buckets, and the size of the counters is an `int`. -/
theorem countminExact_iff (d : MapDef) (hnb : 0<d.nbHashFunctions.toNat)
    (hpos : 0<d.maxEntries.toNat) : (∀ H, CountminExact H d) ↔ CountminFits d :=
  ⟨fun h => countminFits_of_exact h hnb hpos,fun h _ => countminExact_of_fits h hnb hpos⟩

def countmin4 : MapDef := ⟨4,4,4⟩

theorem countmin4_exact : 0 < countmin4.nbHashFunctions.toNat ∧ 0 < countmin4.maxEntries.toNat ∧
      CountminExact (.const 7 9) countmin4 :=
  ⟨by decide,by decide,(countminExact_iff countmin4 (by decide) (by decide)).mpr (by decide) _⟩

def countmin2 : MapDef := ⟨4,4,2⟩

def byFirstByte : Lookup3 where
  hashlittle value := (value.headD 0).zeroExtend 32
  hashlittle2 value := ((value.headD 0).zeroExtend 32,0)

def countmin2Value (b : Byte) : countmin2.Value := Vector.replicate 4 b

/-- The value 2 was never added and shares no bucket of row 0 with the value 0, but its estimate
is 1. -/
theorem countmin2_overlap : (((countminCreate countmin2).bind fun cm =>
        exec (countminAdd byFirstByte countmin2) cm [countmin2Value 0]).bind fun cm =>
          countminLookup byFirstByte countmin2 cm (countmin2Value 2))=some 1 ∧
      rowCount byFirstByte countmin2 [countmin2Value 0] (countmin2Value 2) 0=0 ∧
      ¬ CountminExact byFirstByte countmin2 := by
  have hestimate : (((countminCreate countmin2).bind fun cm =>
      exec (countminAdd byFirstByte countmin2) cm [countmin2Value 0]).bind fun cm =>
        countminLookup byFirstByte countmin2 cm (countmin2Value 2))=some 1 := rfl
  have hrow : rowCount byFirstByte countmin2 [countmin2Value 0] (countmin2Value 2) 0=0 := by decide
  refine ⟨hestimate,hrow,?_⟩
  rintro ⟨cm,hcreate,h⟩
  obtain ⟨cm',hrun,hlookup⟩ := h [countmin2Value 0] (by decide)
  obtain ⟨count,hcount,hleast,-⟩ := hlookup (countmin2Value 2)
  rw [hcreate,Option.bind_some,hrun,Option.bind_some,hcount] at hestimate
  cases hestimate
  have hle := hleast.2 ⟨0,by decide,hrow⟩
  exact absurd hle (by decide)
end P4Benchmarks.P4rtOvs
