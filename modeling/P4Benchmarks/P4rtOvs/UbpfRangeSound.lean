import P4Benchmarks.Lib.Span
import P4Benchmarks.P4rtOvs.UbpfRange
/-!
# Ranges of arithmetic results are right

The interval of what the interpreter can compute from two ranges is compared with the range that
`update_min_max_alu_op` leaves.
-/
namespace P4Benchmarks.P4rtOvs
open Ebpf Lib Lib.Span
open BitVec hiding or_self not_or not_and

inductive View where
  | unsigned
  | signed
deriving DecidableEq

namespace View
def read : View → BitVec 64 → Int
  | unsigned, v => v.toNat
  | signed, v => v.toInt

def range (r : RegState) : View → Span
  | unsigned => ⟨r.uMin.toNat,r.uMax.toNat⟩
  | signed => ⟨r.sMin.toInt,r.sMax.toInt⟩

theorem read_mem {r : RegState} {v : BitVec 64} (h : r.Has v) : ∀ view : View, view.read v∈view.range r
  | unsigned => ⟨Int.ofNat_le.mpr h.uMin_le,Int.ofNat_le.mpr h.le_uMax⟩
  | signed => ⟨h.sMin_le,h.le_sMax⟩

theorem has_of_read_mem {r : RegState} {v : BitVec 64} (h : ∀ view : View, view.read v∈view.range r) : r.Has v :=
  ⟨(h signed).1,(h signed).2,Int.ofNat_le.mp (h unsigned).1,Int.ofNat_le.mp (h unsigned).2⟩
end View

def Ebpf.Width.size (width : Width) : Int := 2^width.opsize.toNat

def Ebpf.Width.least : Width → View → Int
  | wide, .signed => -2^63
  | _, _ => 0

def Ebpf.Width.trunc : Width → BitVec 64 → BitVec 64
  | narrow => low
  | wide => id

def seen (width : Width) (A : Span) : Span := A.residues 0 width.size

section Bitwise
variable (A B : Span)
/-- The results of `f`, which are at most `upper` and, if `atEnds` holds, at least that of the lower ends. -/
def bitwise (f : Nat → Nat → Nat) (atEnds : Nat → Nat → Nat → Nat → Prop) [∀ m n k l, Decidable (atEnds m n k l)]
    (upper : Int) : Span :=
  let (lo,hi,lo',hi') := (A.lo.toNat,A.hi.toNat,B.lo.toNat,B.hi.toNat)
  if lo=hi ∧ lo'=hi' then ⟨f lo lo',f lo lo'⟩ else ⟨if atEnds lo hi lo' hi' then f lo lo' else 0,upper⟩

def conj : Span := bitwise A B (·&&&·) AndAtEnds (min A.hi B.hi)
def disj : Span := bitwise A B (·|||·) OrAtEnds (2^((max A.hi.toNat B.hi.toNat).log2+1)-1)
end Bitwise

/-- Numbers among which are all results for numbers of `A` and `B`; `shift` has the second operand
without a sign. -/
def results (width : Width) (op : AluOp) (same : Bool) (A B shift : Span) : Option Span :=
  match op with
  | .add => some (corners (·+·) A B)
  | .sub => some (if same then ⟨0,0⟩ else corners (·-·) A B)
  | .mul => some (corners (·*·) A B)
  | .lsh => if shift.hi<64 then some (corners (fun x n => x*2^n.toNat) A shift) else none
  | .rsh =>
    if shift.hi<width.opsize.toNat then some (corners (fun x n => (x.toNat/2^n.toNat : Nat)) (seen width A) shift)
    else none
  | .and => some (if same then seen width A else conj (seen width A) (seen width B))
  | .or => some (if same then seen width A else disj (seen width A) (seen width B))
  | .xor => some (if same then ⟨0,0⟩ else ⟨0,(disj (seen width A) (seen width B)).hi⟩)
  | .div => some ⟨0,(seen width A).hi/max 1 (seen width B).lo⟩
  | .mod => some ⟨0,min (seen width A).hi ((seen width B).hi-1)⟩
  | .arsh =>
    if 2*(seen width A).hi<width.size ∧ shift.hi<width.opsize.toNat then some ⟨0,(seen width A).hi⟩
    else none
  | .mov => none

def resultRange (width : Width) (view : View) (op : AluOp) (same : Bool) (A B shift : Span) : Span :=
  match results width op same A B shift with
  | some R => R.residues (width.least view) width.size
  | none => ⟨width.least view,width.least view+width.size-1⟩

section Words
variable {width : Width} {view : View} {a b x : BitVec 64} {z : Int} {A : Span}

theorem read_modEq : (x.toNat : Int)≡view.read x [ZMOD 2^64] := by
  cases view with
  | unsigned => rfl
  | signed =>
    rw [View.read,toInt_eq_toNat_bmod]
    exact (Int.bmod_emod ..).symm

theorem size_dvd : width.size∣2^64 := by cases width <;> decide

theorem size_pos : 0<width.size := by cases width <;> decide

theorem toNat_low : (low x).toNat=x.toNat%2^32 := by
  rw [low,toNat_and,show (0xffffffff : BitVec 64).toNat=2^32-1 from rfl,Nat.and_two_pow_sub_one_eq_mod]

theorem toNat_seen : (width.trunc x).toNat=x.toNat%2^width.opsize.toNat := by
  cases width with
  | narrow => exact toNat_low
  | wide => exact (Nat.mod_eq_of_lt x.isLt).symm

theorem toNat_trunc : ((width.trunc x).toNat : Int)=x.toNat%width.size := by
  rw [toNat_seen]
  push_cast
  rfl

theorem read_trunc_bounds : width.least view≤view.read (width.trunc x) ∧
    view.read (width.trunc x)<width.least view+width.size := by
  cases view with
  | unsigned =>
    rw [View.read,toNat_trunc,show width.least .unsigned=0 by cases width <;> rfl,zero_add]
    exact ⟨Int.emod_nonneg _ size_pos.ne',Int.emod_lt_of_pos _ size_pos⟩
  | signed =>
    cases width with
    | wide =>
      have hlower := le_toInt x
      have hupper := @toInt_lt 64 x
      exact ⟨hlower,by change x.toInt < -2^63+2^64; omega⟩
    | narrow =>
      have hlt : (low x).toNat<2^32 := by rw [toNat_low]; omega
      change 0≤(low x).toInt ∧ (low x).toInt<0+2^32
      rw [toInt_eq_toNat_of_lt (by omega)]
      omega

theorem read_mem_residues (hz : z∈A) (hmod : (x.toNat : Int)≡z [ZMOD width.size]) :
    view.read (width.trunc x)∈A.residues (width.least view) width.size := by
  refine mem_residues hz size_pos read_trunc_bounds (.trans ?_ hmod)
  refine ((read_modEq.of_dvd size_dvd).symm).trans ?_
  rw [toNat_trunc]
  exact Int.mod_modEq _ _

theorem mem_seen (ha : view.read a∈A) : ((width.trunc a).toNat : Int)∈seen width A := by
  have hmod : ((width.trunc a).toNat : Int)≡view.read a [ZMOD width.size] := by
    rw [toNat_trunc]
    exact (Int.mod_modEq _ _).trans (read_modEq.of_dvd size_dvd)
  refine mem_residues ha size_pos ?_ hmod
  rw [toNat_trunc,zero_add]
  exact ⟨Int.emod_nonneg _ size_pos.ne',Int.emod_lt_of_pos _ size_pos⟩

end Words

/-! ### Operators that are compatible with reduction -/

section Modular
variable {width : Width} {view : View} {a b x : BitVec 64} {z n : Int} {A B : Span}

theorem toInt_modEq : x.toInt≡view.read x [ZMOD 2^64] := (@read_modEq .signed x).symm.trans read_modEq

theorem modEq_of_toInt (h : x.toInt=n.bmod (2^64)) (hn : n≡z [ZMOD 2^64]) :
    (x.toNat : Int)≡z [ZMOD width.size] := by
  refine Int.ModEq.of_dvd size_dvd (((@read_modEq .signed x).trans ?_).trans hn)
  rw [View.read,h]
  exact Int.bmod_emod ..

theorem add_mem (ha : view.read a∈A) (hb : view.read b∈B) : view.read (width.trunc (a+b))∈
    (corners (·+·) A B).residues (width.least view) width.size :=
  read_mem_residues (mem_corners (fun _ _ => .inl fun _ _ h => Int.add_le_add_right h _)
    (fun _ => .inl fun _ _ h => Int.add_le_add_left h _) ha hb)
    (modEq_of_toInt (toInt_add a b) (toInt_modEq.add toInt_modEq))

theorem sub_mem (ha : view.read a∈A) (hb : view.read b∈B) : view.read (width.trunc (a-b))∈
    (corners (·-·) A B).residues (width.least view) width.size :=
  read_mem_residues (mem_corners (fun _ _ => .inl fun _ _ h => Int.sub_le_sub_right h _)
    (fun _ => .inr fun _ _ h => Int.sub_le_sub_left h _) ha hb)
    (modEq_of_toInt toInt_sub (toInt_modEq.sub toInt_modEq))

theorem mul_oneWay (x : Int) : OneWay (x*·) := by
  rcases le_total 0 x with hx | hx
  · exact .inl fun _ _ h => Int.mul_le_mul_of_nonneg_left h hx
  · exact .inr fun _ _ h => Int.mul_le_mul_of_nonpos_left hx h

theorem mul_mem (ha : view.read a∈A) (hb : view.read b∈B) : view.read (width.trunc (a*b))∈
    (corners (·*·) A B).residues (width.least view) width.size :=
  read_mem_residues (mem_corners (fun y _ => by simpa only [Int.mul_comm] using mul_oneWay y)
    mul_oneWay ha hb) (modEq_of_toInt (toInt_mul a b) (toInt_modEq.mul toInt_modEq))

theorem two_pow_mono {m n : Int} (h : m≤n) : (2 : Int)^m.toNat≤2^n.toNat :=
  mod_cast Nat.pow_le_pow_right (by decide) (Int.toNat_le_toNat h)

theorem lsh_mem (ha : view.read a∈A) (hb : (b.toNat : Int)∈B) : view.read (width.trunc (a<<<b.toNat))∈
    (corners (fun x n => x*2^n.toNat) A B).residues (width.least view) width.size := by
  refine read_mem_residues (mem_corners (fun _ _ => .inl fun _ _ h => ?_) (fun x => ?_) ha hb) ?_
  · exact Int.mul_le_mul_of_nonneg_right h (Int.pow_nonneg (by decide))
  · rcases mul_oneWay x with h | h
    · exact .inl fun _ _ hmn => h _ _ (two_pow_mono hmn)
    · exact .inr fun _ _ hmn => h _ _ (two_pow_mono hmn)
  · refine Int.ModEq.of_dvd size_dvd ?_
    rw [toNat_shiftLeft,Nat.shiftLeft_eq,Int.toNat_natCast]
    push_cast
    exact (Int.mod_modEq _ _).trans (read_modEq.mul_right _)

end Modular

/-! ### Operators on the bits they see -/

section Seen
variable {width : Width} {view : View} {a b v x : BitVec 64} {A B R : Span}
  {longShift : Width → AluOp → BitVec 64 → BitVec 64 → BitVec 64} {source : Source}

theorem mem_of_toNat {n : Nat} (hx : x.toNat%2^width.opsize.toNat=n) (hn : (n : Int)∈R) :
    view.read (width.trunc x)∈R.residues (width.least view) width.size := by
  refine read_mem_residues hn ?_
  rw [← hx]
  push_cast
  exact (Int.mod_modEq _ _).symm

theorem seen_nonneg : 0≤(seen width A).lo := by
  have hlo := Int.emod_nonneg A.lo (@size_pos width).ne'
  rw [Int.emod_def] at hlo
  rw [seen,residues]
  split_ifs
  · simp only [sub_zero]
    rw [mul_comm]
    exact hlo
  · exact le_rfl

theorem toNat_bounds {n : Nat} (h : (n : Int)∈seen width A) :
    (seen width A).lo.toNat≤n ∧ n≤(seen width A).hi.toNat := by
  have hpos := @seen_nonneg width A
  obtain ⟨hlo,hhi⟩ := h
  omega

section Bitwise
variable (ha : ((width.trunc a).toNat : Int)∈seen width A) (hb : ((width.trunc b).toNat : Int)∈seen width B)
include ha hb

theorem bitwise_mem {f : Nat → Nat → Nat} {atEnds : Nat → Nat → Nat → Nat → Prop}
    [∀ m n k l, Decidable (atEnds m n k l)] {upper : Int}
    (hends : ∀ {lo hi lo' hi' m n}, atEnds lo hi lo' hi' → lo ≤ m ∧ m≤hi → lo'≤n ∧ n≤hi' → m<2^64 → n<2^64 →
      f lo lo'≤f m n)
    (hupper : (f (width.trunc a).toNat (width.trunc b).toNat : Int)≤upper) :
    (f (width.trunc a).toNat (width.trunc b).toNat : Int)∈bitwise (seen width A) (seen width B) f atEnds upper := by
  have ha' := toNat_bounds ha
  have hb' := toNat_bounds hb
  rw [bitwise]
  split_ifs with hconst hat
  · rw [show (width.trunc a).toNat=(seen width A).lo.toNat by omega,
      show (width.trunc b).toNat=(seen width B).lo.toNat by omega]
    exact ⟨le_rfl,le_rfl⟩
  · exact ⟨Int.ofNat_le.mpr (hends hat ha' hb' (width.trunc a).isLt (width.trunc b).isLt),hupper⟩
  · exact ⟨Int.natCast_nonneg _,hupper⟩

theorem conj_mem :
    (((width.trunc a).toNat&&&(width.trunc b).toNat : Nat) : Int)∈conj (seen width A) (seen width B) :=
  bitwise_mem ha hb and_ends_le
    (le_min ((Int.ofNat_le.mpr Nat.and_le_left).trans ha.2) ((Int.ofNat_le.mpr Nat.and_le_right).trans hb.2))

theorem disj_mem :
    (((width.trunc a).toNat|||(width.trunc b).toNat : Nat) : Int)∈disj (seen width A) (seen width B) := by
  have hlog := @Nat.lt_log2_self (max (seen width A).hi.toNat (seen width B).hi.toNat)
  have hle := (toNat_bounds ha).2
  have hle' := (toNat_bounds hb).2
  have hlt := Nat.or_lt_two_pow (Nat.lt_of_le_of_lt (hle.trans (Nat.le_max_left ..)) hlog)
    (Nat.lt_of_le_of_lt (hle'.trans (Nat.le_max_right ..)) hlog)
  exact bitwise_mem ha hb or_ends_le (Int.le_sub_one_of_lt (by exact_mod_cast hlt))

end Bitwise

theorem rsh_mem (ha : ((width.trunc a).toNat : Int)∈A) (hb : (b.toNat : Int)∈B) :
    (((width.trunc a).toNat/2^b.toNat : Nat) : Int)∈corners (fun x n => (x.toNat/2^n.toNat : Nat)) A B :=
  mem_corners (f := fun x n => (x.toNat/2^n.toNat : Nat))
    (fun _ _ => .inl fun _ _ h => Int.ofNat_le.mpr (Nat.div_le_div_right (Int.toNat_le_toNat h)))
    (fun _ => .inr fun _ _ h => Int.ofNat_le.mpr (Nat.div_le_div_left
      (Nat.pow_le_pow_right (by decide) (Int.toNat_le_toNat h)) (Nat.two_pow_pos _))) ha hb

theorem toNat_u32 : (u32 a).toNat=(Width.narrow.trunc a).toNat := by
  rw [toNat_seen]
  exact toNat_setWidth ..

theorem toNat_widen (y : BitVec 32) : (y.setWidth 64).toNat=y.toNat := toNat_setWidth_of_le (by decide)

theorem trunc_widen (y : BitVec 32) : Width.narrow.trunc (y.setWidth 64)=y.setWidth 64 := by
  apply eq_of_toNat_eq
  rw [toNat_seen,toNat_widen]
  exact Nat.mod_eq_of_lt y.isLt

theorem divide_eq_value {zero : Prop} [Decidable zero] {q : BitVec 64} (hv : divide source b (decide zero) q=.value v) :
    ¬zero ∧ v=q := by
  rw [divide] at hv
  split_ifs at hv with _ hzero
  exact ⟨by simpa using hzero,(AluResult.value.inj hv).symm⟩

theorem div_value (hv : aluValue longShift width .div source a b=.value v) : ∃ x, v=width.trunc x ∧
    x.toNat=(width.trunc a).toNat/(width.trunc b).toNat ∧ (width.trunc b).toNat≠0 := by
  cases width with
  | narrow =>
    obtain ⟨hzero,rfl⟩ := divide_eq_value hv
    rw [← toNat_u32,← toNat_u32]
    exact ⟨_,rfl,toNat_widen _,fun h => hzero (eq_of_toNat_eq h)⟩
  | wide =>
    obtain ⟨hzero,rfl⟩ := divide_eq_value hv
    exact ⟨_,rfl,toNat_udiv,fun h => hzero (eq_of_toNat_eq h)⟩

theorem mod_value (hv : aluValue longShift width .mod source a b=.value v) : ∃ x, v=width.trunc x ∧
    x.toNat=(width.trunc a).toNat%(width.trunc b).toNat ∧ (width.trunc b).toNat≠0 := by
  cases width with
  | narrow =>
    obtain ⟨hzero,rfl⟩ := divide_eq_value hv
    rw [← toNat_u32,← toNat_u32]
    exact ⟨_,(trunc_widen _).symm,toNat_widen _,fun h => hzero (eq_of_toNat_eq h)⟩
  | wide =>
    obtain ⟨hzero,rfl⟩ := divide_eq_value hv
    exact ⟨_,rfl,toNat_umod,fun h => hzero (eq_of_toNat_eq h)⟩

theorem rsh_value (hb : b.toNat<width.opsize.toNat) (hv : aluValue longShift width .rsh source a b=.value v) :
    ∃ x, v=width.trunc x ∧ x.toNat=(width.trunc a).toNat/2^b.toNat := by
  cases width with
  | narrow =>
    rw [aluValue,if_pos (show b.toNat<32 from hb)] at hv
    refine ⟨_,(AluResult.value.inj hv).symm,?_⟩
    rw [toNat_widen,toNat_ushiftRight,Nat.shiftRight_eq_div_pow,toNat_u32]
  | wide =>
    rw [aluValue,if_pos (show b.toNat<64 from hb)] at hv
    refine ⟨_,(AluResult.value.inj hv).symm,?_⟩
    rw [toNat_ushiftRight,Nat.shiftRight_eq_div_pow]
    rfl

theorem arsh_value (ha : 2*((width.trunc a).toNat : Int)<width.size) (hb : b.toNat<width.opsize.toNat)
    (hv : aluValue longShift width .arsh source a b=.value v) :
    ∃ x, v=width.trunc x ∧ x.toNat≤(width.trunc a).toNat := by
  cases width with
  | narrow =>
    change b.toNat<32 at hb
    have hshift : (u32 b).toNat<32 := by rw [u32,toNat_setWidth]; omega
    have hmsb : (u32 a).msb=false := by
      change 2*_<(2^32 : Int) at ha
      rw [msb_eq_false_iff_two_mul_lt,toNat_u32]
      omega
    rw [aluValue,if_pos hshift,sshiftRight_eq_of_msb_false hmsb,signExtend_eq_setWidth_of_msb_false (by simp [hmsb])] at hv
    refine ⟨_,(AluResult.value.inj hv).symm,?_⟩
    rw [toNat_widen,toNat_ushiftRight,toNat_u32]
    exact Nat.shiftRight_le _ _
  | wide =>
    have hmsb : a.msb=false := by
      change 2*(a.toNat : Int)<2^64 at ha
      rw [msb_eq_false_iff_two_mul_lt]
      omega
    rw [aluValue,if_pos (show b.toNat<64 from hb),sshiftRight_eq_of_msb_false hmsb] at hv
    refine ⟨_,(AluResult.value.inj hv).symm,?_⟩
    rw [toNat_ushiftRight]
    exact Nat.shiftRight_le _ _

theorem trunc_value {op : AluOp} (hv : aluValue longShift width op source a b=.value v) : v=width.trunc v := by
  cases width with
  | wide => rfl
  | narrow =>
    have hlow (x : BitVec 64) : low x=low (low x) := by simp [low,BitVec.and_assoc]
    cases op with
    | mod =>
      obtain ⟨-,rfl⟩ := divide_eq_value hv
      exact (trunc_widen _).symm
    | div =>
      obtain ⟨-,rfl⟩ := divide_eq_value hv
      exact hlow _
    | _ =>
      obtain rfl := AluResult.value.inj hv
      exact hlow _

end Seen

section Sound
variable {width : Width} {view : View} {a b v x : BitVec 64} {A B R shift : Span} {same : Bool}
  {longShift : Width → AluOp → BitVec 64 → BitVec 64 → BitVec 64} {source : Source} {op : AluOp}

theorem mem_of_toNat_eq {n : Nat} (hx : x.toNat=n) (hn : (n : Int)∈R) :
    view.read (width.trunc x)∈R.residues (width.least view) width.size :=
  read_mem_residues hn (by rw [hx])

theorem whole_mem (hv : aluValue longShift width op source a b=.value v) :
    view.read v∈(⟨width.least view,width.least view+width.size-1⟩ : Span) := by
  rw [trunc_value hv]
  exact ⟨read_trunc_bounds.1,Int.le_sub_one_of_lt read_trunc_bounds.2⟩

theorem zero_mem (hx : x=0) : view.read (width.trunc x)∈(⟨0,0⟩ : Span).residues (width.least view) width.size :=
  mem_of_toNat_eq (congrArg BitVec.toNat hx) ⟨le_rfl,le_rfl⟩

theorem xor_le_or (m n : Nat) : m^^^n ≤ m|||n := by
  have hsub : (m^^^n)&&&(m|||n)=m^^^n := Nat.eq_of_testBit_eq fun i => by
    rw [Nat.testBit_and,Nat.testBit_xor,Nat.testBit_or]
    cases m.testBit i <;> cases n.testBit i <;> rfl
  exact hsub ▸ Nat.and_le_right

section Bitwise
variable (hsame : same → a=b) (ha : ((width.trunc a).toNat : Int)∈seen width A)
  (hb : ((width.trunc b).toNat : Int)∈seen width B)
include hsame ha hb

theorem and_mem : view.read (width.trunc (a&&&b))∈resultRange width view .and same A B shift := by
  rw [resultRange,results]
  cases same with
  | true =>
    rw [← hsame rfl,BitVec.and_self]
    exact mem_of_toNat toNat_seen.symm ha
  | false => exact mem_of_toNat (by rw [toNat_and,Nat.and_mod_two_pow,toNat_seen,toNat_seen]) (conj_mem ha hb)

theorem or_mem : view.read (width.trunc (a|||b))∈resultRange width view .or same A B shift := by
  rw [resultRange,results]
  cases same with
  | true =>
    rw [← hsame rfl,BitVec.or_self]
    exact mem_of_toNat toNat_seen.symm ha
  | false => exact mem_of_toNat (by rw [toNat_or,Nat.or_mod_two_pow,toNat_seen,toNat_seen]) (disj_mem ha hb)

theorem xor_mem : view.read (width.trunc (a^^^b))∈resultRange width view .xor same A B shift := by
  rw [resultRange,results]
  cases same with
  | true => exact zero_mem (by rw [hsame rfl,BitVec.xor_self]; rfl)
  | false =>
    refine mem_of_toNat (by rw [toNat_xor,Nat.xor_mod_two_pow,← toNat_seen,← toNat_seen]) ⟨Int.natCast_nonneg _,?_⟩
    exact (Int.ofNat_le.mpr (xor_le_or _ _)).trans (disj_mem ha hb).2

end Bitwise

theorem lsh_value (hb : b.toNat<64) (hv : aluValue longShift width .lsh source a b=.value v) :
    v=width.trunc (a<<<b.toNat) := by
  cases width <;> (rw [aluValue,if_pos hb] at hv; exact (AluResult.value.inj hv).symm)

theorem div_le {m n : Nat} {h l : Int} (hm : (m : Int)≤h) (hl : l≤n) (hn : n≠0) :
    ((m/n : Nat) : Int)≤h/max 1 l := by
  rw [Int.le_ediv_iff_mul_le (by omega)]
  have hle : ((m/n : Nat) : Int)*max 1 l≤(m/n : Nat)*n :=
    Int.mul_le_mul_of_nonneg_left (by omega) (Int.natCast_nonneg _)
  have hmul : (((m/n)*n : Nat) : Int) ≤ m := Int.ofNat_le.mpr (Nat.div_mul_le_self m n)
  rw [Int.natCast_mul] at hmul
  omega

/-- Whatever the operands hold, the result is one of those listed for their ranges. -/
theorem value_mem (hsame : same → a=b) (ha : view.read a∈A) (hb : view.read b∈B)
    (hshift : (b.toNat : Int)∈shift) (hv : aluValue longShift width op source a b=.value v) :
    view.read v∈resultRange width view op same A B shift := by
  have haSeen := @mem_seen width _ _ _ ha
  have hbSeen := @mem_seen width _ _ _ hb
  have hmodular (y : BitVec 64) (h : aluValue longShift width op source a b=.value (width.trunc y)) :
      v=width.trunc y := AluResult.value.inj (hv.symm.trans h)
  cases op with
  | add =>
    rw [hmodular (a+b) (by cases width <;> rfl)]
    exact add_mem ha hb
  | sub =>
    rw [hmodular (a-b) (by cases width <;> rfl),resultRange,results]
    cases same with
    | true => exact zero_mem (by rw [hsame rfl,BitVec.sub_self]; rfl)
    | false => exact sub_mem ha hb
  | mul =>
    rw [hmodular (a*b) (by cases width <;> rfl)]
    exact mul_mem ha hb
  | and =>
    rw [hmodular (a&&&b) (by cases width <;> rfl)]
    exact and_mem hsame haSeen hbSeen
  | or =>
    rw [hmodular (a|||b) (by cases width <;> rfl)]
    exact or_mem hsame haSeen hbSeen
  | xor =>
    rw [hmodular (a^^^b) (by cases width <;> rfl)]
    exact xor_mem hsame haSeen hbSeen
  | lsh =>
    rw [resultRange,results]
    split_ifs with h
    · rw [lsh_value (Int.ofNat_lt.mp (hshift.2.trans_lt h)) hv]
      exact lsh_mem ha hshift
    · exact whole_mem hv
  | rsh =>
    rw [resultRange,results]
    split_ifs with h
    · obtain ⟨x,rfl,hx⟩ := rsh_value (Int.ofNat_lt.mp (hshift.2.trans_lt h)) hv
      exact mem_of_toNat_eq hx (rsh_mem haSeen hshift)
    · exact whole_mem hv
  | div =>
    obtain ⟨x,rfl,hx,hzero⟩ := div_value hv
    exact mem_of_toNat_eq hx ⟨Int.natCast_nonneg _,div_le haSeen.2 hbSeen.1 hzero⟩
  | mod =>
    obtain ⟨x,rfl,hx,hzero⟩ := mod_value hv
    refine mem_of_toNat_eq hx ⟨Int.natCast_nonneg _,le_min ?_ ?_⟩
    · exact (Int.ofNat_le.mpr (Nat.mod_le _ _)).trans haSeen.2
    · exact Int.le_sub_one_of_lt ((Int.ofNat_lt.mpr (Nat.mod_lt _ (Nat.pos_of_ne_zero hzero))).trans_le hbSeen.2)
  | arsh =>
    rw [resultRange,results]
    split_ifs with h
    · have hle := haSeen.2
      obtain ⟨x,rfl,hx⟩ := arsh_value (by omega) (Int.ofNat_lt.mp (hshift.2.trans_lt h.2)) hv
      exact mem_of_toNat_eq rfl ⟨Int.natCast_nonneg _,(Int.ofNat_le.mpr hx).trans hle⟩
    · exact whole_mem hv
  | mov => exact whole_mem hv

end Sound

section
variable (ud : Undefined) (regs : BitVec 4 → RegState) (inst : EbpfInst) (width : Width) (op : AluOp)
  (source : Source)

def operandRange : RegState :=
  match source with
  | .reg => regs inst.src
  | .imm => .ofImm inst.imm

/-- The interpreter's result lies in the ranges that the verifier leaves, for all operands in theirs. -/
def AluSound : Prop :=
  ∀ (longShift : Width → AluOp → BitVec 64 → BitVec 64 → BitVec 64) (values : BitVec 4 → BitVec 64),
    (regs inst.dst).Has (values inst.dst) → (source=.reg → (regs inst.src).Has (values inst.src)) →
    ∀ v, aluValue longShift width op source (values inst.dst) (aluOperand source inst values)=.value v →
      (updateMinMaxAluOp ud regs inst width op source).Has v

def FitsIn (view : View) : Prop :=
  resultRange width view op (source=.reg ∧ inst.dst=inst.src) (view.range (regs inst.dst))
    (view.range (operandRange regs inst source)) (View.unsigned.range (operandRange regs inst source)) ≤
  view.range (updateMinMaxAluOp ud regs inst width op source)

instance (view : View) : Decidable (FitsIn ud regs inst width op source view) :=
  inferInstanceAs (Decidable (_≤_))

end

def between (lo hi : BitVec 64) : RegState := ⟨.unknown,none,lo,hi,lo,hi⟩
def allOnesShift : Undefined := ⟨64,fun _ _ => allOnes 64,0⟩
def twoRanges (d s : RegState) (r : BitVec 4) : RegState := if r=1 then d else s

end P4Benchmarks.P4rtOvs
