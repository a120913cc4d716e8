import Mathlib.Algebra.Order.Ring.Int
import Mathlib.Data.List.Induction
/-!
# PIE: the update of the drop probability

`source-egress-dataplane.p4`.  The difference of the delays has the wrong sign, and its shift leaves the 32 bits.
-/
namespace P4Benchmarks.Pie
open BitVec

structure Registers where
  (previousDelay lastSampledDelay dropProbability : BitVec 32)

structure Packet where
  (ingressTstamp egressTstamp : BitVec 48)
  udp : Option (BitVec 16)

def Packet.isControl (packet : Packet) : Bool := packet.udp=some 0x2323
def sadd (a b : BitVec 32) : BitVec 32 := if a.toNat+b.toNat<2^32 then a+b else allOnes 32
def ssub (a b : BitVec 32) : BitVec 32 := if b≤a then a-b else 0
def part (diff : BitVec 32) : Bool × BitVec 32 := if diff.msb then (false,-diff) else (true,diff)

/-- The entries of `compare_alpha_beta` test one bit each. -/
def alphaGeqBeta (alpha beta : BitVec 32) : Bool := !(List.range 32).any (ssub beta alpha).getLsbD

def computeDropProbabilityUpdate (alpha beta : BitVec 32) : Bool → Bool → Bool → BitVec 32 × Bool
  | true, true, _ => (sadd alpha beta,true)
  | true, false, true => (ssub alpha beta,true)
  | true, false, false => (ssub beta alpha,false)
  | false, true, true => (ssub alpha beta,false)
  | false, true, false => (ssub beta alpha,true)
  | false, false, _ => (sadd alpha beta,false)

def control (s : Registers) : Registers :=
  let (alphaPositive,alpha) := part (s.previousDelay-125)
  let (betaPositive,beta) := part (s.lastSampledDelay-s.previousDelay)
  let alpha := alpha<<<9
  let beta := beta<<<19
  let (update,increase) := computeDropProbabilityUpdate alpha beta alphaPositive betaPositive (alphaGeqBeta alpha beta)
  { s with
    lastSampledDelay := s.previousDelay
    dropProbability := (if increase then sadd else ssub) s.dropProbability update }

def egress (s : Registers) (packet : Packet) : Registers :=
  if packet.isControl then control s else
    let queueDelay := (packet.egressTstamp-packet.ingressTstamp).setWidth 32
    { s with previousDelay := (queueDelay.extractLsb' 10 16).setWidth 32 }

def run (trace : List Packet) : Registers := trace.foldl egress ⟨0,0,0⟩

def observe (delays : Nat × Nat) (packet : Packet) : Nat × Nat :=
  if packet.isControl then (delays.1,delays.1) else
    ((packet.egressTstamp-packet.ingressTstamp).toNat/2^10%2^16,delays.2)

def delays (trace : List Packet) : Nat × Nat := trace.foldl observe (0,0)
def clamp (x : Int) : Int := max 0 (min x (2^32-1))
def law (p d dOld : Int) : Int := p+2^9*(d-125)+2^19*(d-dOld)
def value (p d dOld : Int) : Int := p+2^9*(d-125)+if d≤dOld then 2^19*(dOld-d)%2^32 else -(2^19*(d-dOld)%2^32)

def ClampedAlike (p d dOld : Int) : Prop :=
  law p d dOld≤0 ∧ value p d dOld≤0 ∨ 2^32-1≤law p d dOld ∧ 2^32-1≤value p d dOld

/-- A control packet changes the probability by the law, an ordinary one not at all. -/
def Lawful (trace : List Packet) (packet : Packet) : Prop :=
  let p := (run trace).dropProbability.toNat
  ((egress (run trace) packet).dropProbability.toNat : Int)=
    if packet.isControl then clamp (law p (delays trace).1 (delays trace).2) else p

theorem registers_eq (trace : List Packet) :
    ((run trace).previousDelay.toNat,(run trace).lastSampledDelay.toNat)=delays trace ∧
      (delays trace).1<2^16 ∧ (delays trace).2<2^16 := by
  induction trace using List.reverseRecOn with
  | nil => exact ⟨rfl,by decide⟩
  | append_singleton trace packet ih =>
    simp only [run,delays,List.foldl_append,List.foldl_cons,List.foldl_nil] at ih ⊢
    rw [egress,observe]
    split_ifs
    · exact ⟨by rw [←ih.1]; rfl,ih.2.1,ih.2.1⟩
    · refine ⟨?_,Nat.mod_lt _ (by decide),ih.2.2⟩
      rw [←ih.1]
      simp only [toNat_setWidth,extractLsb'_toNat,Nat.shiftRight_eq_div_pow]
      congr 1
      omega

theorem part_sub {x y : BitVec 32} (hx : x.toNat<2^16) (hy : y.toNat<2^16) :
    (part (x-y)).1=decide (y.toNat≤x.toNat) ∧ (part (x-y)).2.toNat=x.toNat-y.toNat+(y.toNat-x.toNat) := by
  rw [part,msb_eq_decide]
  split_ifs with h
  · rw [decide_eq_true_iff] at h
    exact ⟨by simp; bv_omega,by bv_omega⟩
  · rw [decide_eq_true_iff] at h
    exact ⟨by simp; bv_omega,by bv_omega⟩

theorem toNat_sadd (a b : BitVec 32) : (sadd a b).toNat=min (a.toNat+b.toNat) (2^32-1) := by
  rw [sadd]
  split_ifs with h
  · rw [toNat_add_of_lt h]
    omega
  · rw [toNat_allOnes]
    omega

theorem toNat_ssub (a b : BitVec 32) : (ssub a b).toNat=a.toNat-b.toNat := by
  rw [ssub]
  split_ifs with h <;> bv_omega

theorem alphaGeqBeta_eq (alpha beta : BitVec 32) : alphaGeqBeta alpha beta=decide (beta.toNat≤alpha.toNat) := by
  have hzero : (∀ i<32, (ssub beta alpha).getLsbD i=false) ↔ ssub beta alpha=0#32 :=
    ⟨fun h => eq_of_getLsbD_eq fun i hi => by rw [h i hi,getLsbD_zero],fun h i _ => by rw [h,getLsbD_zero]⟩
  rw [alphaGeqBeta,Bool.eq_iff_iff,Bool.not_eq_true',List.any_eq_false]
  simp only [List.mem_range,Bool.not_eq_true,hzero,decide_eq_true_eq,toNat_eq,toNat_ssub,toNat_zero]
  omega

theorem update_eq (p alpha beta : BitVec 32) (up up' : Bool) :
    let u := computeDropProbabilityUpdate alpha beta up up' (alphaGeqBeta alpha beta)
    (((if u.2 then sadd else ssub) p u.1).toNat : Int)=
      clamp (p.toNat+(if up then 1 else -1)*alpha.toNat+(if up' then 1 else -1)*beta.toNat) := by
  have hp := p.isLt
  rw [alphaGeqBeta_eq,clamp]
  by_cases hle : beta.toNat≤alpha.toNat <;> cases up <;> cases up' <;>
    simp [hle,computeDropProbabilityUpdate,toNat_sadd,toNat_ssub] <;> omega

theorem control_eq (s : Registers) (hd : s.previousDelay.toNat<2^16) (hold : s.lastSampledDelay.toNat<2^16) :
    ((control s).dropProbability.toNat : Int)=
      clamp (value s.dropProbability.toNat s.previousDelay.toNat s.lastSampledDelay.toNat) := by
  obtain ⟨hup,halpha⟩ := part_sub (y:=125) hd (by decide)
  obtain ⟨hup',hbeta⟩ := part_sub hold hd
  rw [control]
  simp only [update_eq,toNat_shiftLeft,Nat.shiftLeft_eq,hup,halpha,hup',hbeta,value]
  congr 1
  simp only [decide_eq_true_eq]
  have h125 : (125 : BitVec 32).toNat=125 := rfl
  split_ifs <;> omega

/-- The probability follows the law exactly if the delays agree or both values are clamped alike. -/
theorem lawful_iff (trace : List Packet) (packet : Packet) :
    Lawful trace packet ↔ (packet.isControl → (delays trace).1=(delays trace).2 ∨
      ClampedAlike (run trace).dropProbability.toNat (delays trace).1 (delays trace).2) := by
  obtain ⟨heq,hd,hold⟩ := registers_eq trace
  rw [←heq] at hd hold ⊢
  rw [Lawful,egress,←heq]
  split_ifs with h
  · rw [control_eq _ hd hold]
    simp only [h,clamp,law,value,ClampedAlike,forall_const]
    split_ifs <;> omega
  · simp [h]

def controller (c : Int × Nat × Nat) (packet : Packet) : Int × Nat × Nat :=
  (if packet.isControl then clamp (value c.1 c.2.1 c.2.2) else c.1,observe c.2 packet)

/-- On every trace the saturating registers are those of the controller. -/
theorem run_eq_controller (trace : List Packet) :
    (((run trace).dropProbability.toNat : Int),(run trace).previousDelay.toNat,(run trace).lastSampledDelay.toNat)=
      trace.foldl controller (0,0,0) := by
  induction trace using List.reverseRecOn with
  | nil => rfl
  | append_singleton trace packet ih =>
    obtain ⟨heq,hd,hold⟩ := registers_eq trace
    rw [(registers_eq (trace++[packet])).1]
    rw [←heq] at hd hold
    simp only [run,delays,List.foldl_append,List.foldl_cons,List.foldl_nil] at *
    rw [←ih,controller,egress,←heq]
    split_ifs
    · rw [control_eq _ hd hold]
    · rfl

/-- The delay rises from 0 to 200, and the probability falls. -/
theorem rising_delay_not_lawful : ¬Lawful [⟨0,204800,none⟩] ⟨0,0,some 0x2323⟩ := by
  rw [Lawful]
  decide
end P4Benchmarks.Pie
