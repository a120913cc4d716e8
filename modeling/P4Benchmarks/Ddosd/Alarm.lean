import Mathlib.Data.BitVec
/-!
# ddosd: the end of an observation window

`ddosd.p4` compares the entropies of a window with averages over the windows before it; a window that
raises an alarm does not count for them.  `ewma` is the average entropy and `ewmmd` the average distance
from it, both with 18 fractional bits, where the entropies have 4.
-/
namespace P4Benchmarks.Ddosd
open BitVec Nat
structure Config where
  log2M : BitVec 5
  trainingLen : BitVec 32
  (alpha k : BitVec 8)

structure Average where
  (ewma ewmmd : BitVec 32)

structure Registers where
  owCounter : BitVec 32
  (src dst : Average)

structure Window (c : Config) where
  (src dst : BitVec 32)
  src_le : src.toNat≤16*c.log2M.toNat
  dst_le : dst.toNat≤16*c.log2M.toNat
variable (c : Config)

def Average.margin (a : Average) : BitVec 32 := (c.k.setWidth 32*a.ewmmd)>>>3

def Average.update (entropy : BitVec 32) (a : Average) : Average :=
  let alpha := c.alpha.setWidth 32
  let ewma := (alpha*entropy)<<<6+((0x100-alpha)*a.ewma)>>>8
  let dist := if entropy<<<14 ≥ ewma then entropy<<<14-ewma else ewma-entropy<<<14
  ⟨ewma,(alpha*dist)>>>8+((0x100-alpha)*a.ewmmd)>>>8⟩
variable (w : Window c) (r : Registers)
def endOfWindow : Registers × Bool :=
  let currentOw := r.owCounter+1
  if currentOw=1 then (⟨currentOw,⟨w.src<<<14,0⟩,⟨w.dst<<<14,0⟩⟩,false)
  else if c.trainingLen < currentOw ∧ (w.src<<<14 > r.src.ewma+r.src.margin c ∨
      w.dst<<<14 < r.dst.ewma-r.dst.margin c) then ({ r with owCounter := currentOw },true)
  else (⟨currentOw,r.src.update c w.src,r.dst.update c w.dst⟩,false)
variable (ws : List (Window c))
def run : Registers := ws.foldl (fun r w => (endOfWindow c w r).1) ⟨0,⟨0,0⟩,⟨0,0⟩⟩
def Config.most : Nat := 2^14*(16*c.log2M.toNat)

structure Average.Bounded (a : Average) : Prop where
  ewma_le : a.ewma.toNat ≤ c.most
  ewmmd_le : a.ewmmd.toNat ≤ c.most
variable {c} {a : Average} {e x y : BitVec 32}
theorem Config.most_le : c.most≤2^23-2^18 := by
  have := c.log2M.isLt
  unfold most
  omega

theorem toNat_level (he : e.toNat≤16*c.log2M.toNat) : (e<<<14).toNat=2^14*e.toNat ∧ 2^14*e.toNat ≤ c.most := by
  have hlevel : 2^14*e.toNat ≤ c.most := Nat.mul_le_mul_left _ he
  have := c.most_le
  refine ⟨?_,hlevel⟩
  rw [toNat_shiftLeft,Nat.shiftLeft_eq]
  omega

theorem toNat_mul_small {w x : BitVec 32} (hw : w.toNat≤256) (hx : x.toNat ≤ c.most) : (w*x).toNat=w.toNat*x.toNat :=
  toNat_mul_of_lt (Nat.lt_of_le_of_lt (Nat.mul_le_mul hw (hx.trans c.most_le)) (by decide))

theorem mix_le (hx : x.toNat ≤ c.most) (hy : y.toNat ≤ c.most) :
    ((c.alpha.setWidth 32*x)>>>8+((0x100-c.alpha.setWidth 32)*y)>>>8).toNat ≤ c.most := by
  have halpha := c.alpha.isLt
  have hw : (c.alpha.setWidth 32).toNat=c.alpha.toNat := toNat_setWidth_of_le (by decide)
  have hrest : (0x100-c.alpha.setWidth 32).toNat=256-c.alpha.toNat := by bv_omega
  have hsum : c.alpha.toNat*x.toNat+(256-c.alpha.toNat)*y.toNat≤256*c.most := calc
    _ ≤ c.alpha.toNat*c.most+(256-c.alpha.toNat)*c.most :=
      Nat.add_le_add (Nat.mul_le_mul_left _ hx) (Nat.mul_le_mul_left _ hy)
    _ = 256*c.most := by rw [← Nat.add_mul,Nat.add_sub_cancel' (by omega)]
  rw [toNat_add,toNat_ushiftRight,toNat_ushiftRight,toNat_mul_small (by omega) hx,toNat_mul_small (by omega) hy,
    hw,hrest,shiftRight_eq_div_pow,shiftRight_eq_div_pow]
  omega

theorem Average.Bounded.update (h : a.Bounded c) (he : e.toNat≤16*c.log2M.toNat) : (a.update c e).Bounded c := by
  obtain ⟨hlevel,hle⟩ := toNat_level he
  have hscale : (c.alpha.setWidth 32*e)<<<6=(c.alpha.setWidth 32*e<<<14)>>>8 := by
    have hw : (c.alpha.setWidth 32).toNat≤256 := by bv_omega
    have hmul := Nat.mul_le_mul hw (hle.trans c.most_le)
    apply eq_of_toNat_eq
    rw [toNat_shiftLeft,toNat_ushiftRight,toNat_mul_small hw (by omega : _ ≤ c.most),
      toNat_mul_small hw (by omega : _ ≤ c.most),hlevel,Nat.shiftLeft_eq,shiftRight_eq_div_pow]
    rw [Nat.mul_left_comm] at hmul ⊢
    omega
  have hewma : (a.update c e).ewma.toNat ≤ c.most := by
    change ((c.alpha.setWidth 32*e)<<<6+_).toNat≤_
    rw [hscale]
    exact mix_le (hlevel ▸ hle) h.ewma_le
  refine ⟨hewma,mix_le ?_ h.ewmmd_le⟩
  split_ifs with hge
  · rw [toNat_sub_of_le hge]
    omega
  · rw [toNat_sub_of_le (by bv_omega)]
    exact (sub_le _ _).trans hewma

def SrcHigh : Prop := 2^14*w.src.toNat>r.src.ewma.toNat+c.k.toNat*r.src.ewmmd.toNat/8
def DstLow : Prop := (2^14*w.dst.toNat : Int) < r.dst.ewma.toNat-(c.k.toNat*r.dst.ewmmd.toNat/8 : Nat)

theorem Average.Bounded.toNat_margin (h : a.Bounded c) :
    (a.margin c).toNat=c.k.toNat*a.ewmmd.toNat/8 ∧ c.k.toNat*a.ewmmd.toNat/8≤2^28 := by
  have hk : (c.k.setWidth 32).toNat=c.k.toNat := toNat_setWidth_of_le (by decide)
  have hmul : c.k.toNat*a.ewmmd.toNat≤256*_ := Nat.mul_le_mul c.k.isLt.le (h.ewmmd_le.trans c.most_le)
  rw [margin,toNat_ushiftRight,toNat_mul_small (by omega) h.ewmmd_le,hk,shiftRight_eq_div_pow]
  omega
variable {w : Window c} {r : Registers}
theorem endOfWindow_bounded (h : r.src.Bounded c ∧ r.dst.Bounded c) :
    (endOfWindow c w r).1.src.Bounded c ∧ (endOfWindow c w r).1.dst.Bounded c := by
  have hsrc := toNat_level w.src_le
  have hdst := toNat_level w.dst_le
  unfold endOfWindow
  extract_lets
  split_ifs
  · exact ⟨⟨hsrc.1 ▸ hsrc.2,Nat.zero_le _⟩,⟨hdst.1 ▸ hdst.2,Nat.zero_le _⟩⟩
  · exact h
  · exact ⟨h.1.update w.src_le,h.2.update w.dst_le⟩

theorem run_bounded : (run c ws).src.Bounded c ∧ (run c ws).dst.Bounded c := by
  induction ws using List.reverseRecOn with
  | nil => exact ⟨⟨Nat.zero_le _,Nat.zero_le _⟩,⟨Nat.zero_le _,Nat.zero_le _⟩⟩
  | append_singleton ws w ih =>
    rw [run,List.foldl_concat]
    exact endOfWindow_bounded ih

def Compared (c : Config) (r : Registers) : Prop := r.owCounter+1≠1 ∧ c.trainingLen < r.owCounter+1
def Fits (c : Config) (r : Registers) : Prop := c.k.toNat*r.dst.ewmmd.toNat/8 ≤ r.dst.ewma.toNat

theorem alarm_iff (h : r.src.Bounded c ∧ r.dst.Bounded c) :
    (endOfWindow c w r).2 ↔ Compared c r ∧ (SrcHigh w r ∨ DstLow w r ∨ ¬Fits c r) := by
  have hsrc : w.src<<<14 > r.src.ewma+r.src.margin c ↔ SrcHigh w r := by
    obtain ⟨hlevel,-⟩ := toNat_level w.src_le
    obtain ⟨hmargin,hle⟩ := h.1.toNat_margin
    have hs := h.1.ewma_le.trans c.most_le
    rw [GT.gt,lt_def,toNat_add,hlevel,hmargin,SrcHigh]
    omega
  have hdst : w.dst<<<14 < r.dst.ewma-r.dst.margin c ↔ DstLow w r ∨ ¬Fits c r := by
    obtain ⟨hlevel,hlevelLe⟩ := toNat_level w.dst_le
    obtain ⟨hmargin,hle⟩ := h.2.toNat_margin
    have hd := h.2.ewma_le.trans c.most_le
    have := c.most_le
    rw [lt_def,toNat_sub,hlevel,hmargin,DstLow,Fits]
    omega
  rw [← hdst,← hsrc,endOfWindow,Compared]
  split_ifs with hfirst hraise
  · exact iff_of_false nofun fun h => h.1.1 hfirst
  · exact iff_of_true rfl ⟨⟨hfirst,hraise.1⟩,hraise.2⟩
  · exact iff_of_false nofun fun h => hraise ⟨h.1.2,h.2⟩

/-- No average passes the largest entropy.  After the training, an alarm is raised exactly when it is due, if
the window is compared and the threshold for the destinations does not pass zero unless the sources raise
the alarm anyway.  A window that is not compared, as the 32-bit number of windows has wrapped around, must not
be due for one. -/
theorem alarm_exact_iff (c : Config) (ws : List (Window c)) (w : Window c) : let r := run c ws
    (r.src.Bounded c ∧ r.dst.Bounded c) ∧
    ((c.trainingLen.toNat<ws.length+1 → ((endOfWindow c w r).2 ↔ SrcHigh w r ∨ DstLow w r)) ↔
    (c.trainingLen.toNat<ws.length+1 → Compared c r ∧ (SrcHigh w r ∨ Fits c r) ∨
      ¬Compared c r ∧ ¬(SrcHigh w r ∨ DstLow w r))) := by
  intro r
  have hlow : DstLow w r → Fits c r := by
    unfold DstLow Fits
    omega
  refine ⟨run_bounded ws,imp_congr_right fun _ => ?_⟩
  rw [alarm_iff (run_bounded ws)]
  tauto

/-- After destination entropies of 10 and 0 the average is 5 and the margin 79; an entropy of 5 raises an
alarm. -/
theorem margin_passes_zero : let c : Config := ⟨10,2,128,255⟩
    let w (dst : Fin 11) : Window c := ⟨0,.ofNat 32 dst,by decide,by decide +revert⟩
    let r := run c [w 10,w 0]
    (endOfWindow c (w 5) r).2 ∧ ¬(SrcHigh (w 5) r ∨ DstLow (w 5) r) := by
  unfold SrcHigh DstLow
  decide
end P4Benchmarks.Ddosd
