import P4Benchmarks.Spine.Encryption
/-!
# SPINE: the pads and SipHash

`sip_round` shifts where SipRound rotates.
-/
namespace P4Benchmarks.Spine
open BitVec
def roundWith (move : BitVec 64 → Nat → BitVec 64) (w : Words) : Words :=
  let v0 := w.v0+w.v1
  let v1 := move w.v1 13^^^v0
  let v2 := w.v2+w.v3
  let v3 := move w.v3 16^^^v2
  let v0 := move v0 32+v3
  let v2 := v2+v1
  ⟨v0,move v1 17^^^v2,move v2 32,move v3 21^^^v0⟩

def sipRoundSpec : Words → Words := roundWith rotateLeft
variable (message keySrc keyDst : BitVec 64)
def sipInit : Words := ⟨keySrc^^^const1,keyDst^^^const2,keySrc^^^const3,keyDst^^^const4^^^message⟩

def hashWith (round : Words → Words) (message keySrc keyDst : BitVec 64) : BitVec 64 :=
  let w := round (sipInit message keySrc keyDst)
  (round (round { w with v0 := w.v0^^^message, v2 := w.v2^^^0xff })).result

def Words.Lossless (w : Words) : Prop :=
  let a0 := w.v0+w.v1
  let a1 := w.v1<<<13^^^a0
  let a2 := w.v2+w.v3
  let a3 := w.v3<<<16^^^a2
  (w.v1>>>51=0 ∧ w.v3>>>48=0) ∧ (a0>>>32=0 ∧ (a2+a1)>>>32=0) ∧ a1>>>47=0 ∧ a3>>>43=0
section
variable {n : Nat} {x y c : BitVec 64}
theorem rotateLeft_eq (hn : n<64) : x.rotateLeft n=x<<<n|||x>>>(64-n) := by rw [rotateLeft_def,Nat.mod_eq_of_lt hn]

theorem shiftLeft_eq_rotateLeft (hn : n<64) (h : x<<<n=y.rotateLeft n) : y>>>(64-n)=0 ∧ x<<<n=y<<<n := by
  rw [rotateLeft_eq hn] at h
  have hlost : y>>>(64-n)=0 := by
    apply eq_of_getLsbD_eq
    intro i hi
    have hbit := congrArg (·.getLsbD i) h
    by_cases hin : i<n
    · simpa [hin] using hbit.symm
    · simpa using getLsbD_of_ge y _ (by omega)
  rw [h,hlost]
  exact ⟨rfl,or_zero⟩

theorem shiftLeft_eq_of_add (h : (c+x)<<<n=(c+y)<<<n) : x<<<n=y<<<n := by
  rwa [shiftLeft_add_distrib,shiftLeft_add_distrib,BitVec.add_right_inj] at h

theorem rotateLeft_of_lossless (hn : n<64) (h : x>>>(64-n)=0) : x.rotateLeft n=x<<<n := by
  rw [rotateLeft_eq hn,h]
  exact or_zero

/-- The bits that only the rotation keeps are too low to be lost in the next shift. -/
theorem shiftLeft_xor_eq {k : Nat} (hk : k<64) (hkn : k+n≤64) (h : (x<<<k^^^c)<<<n=(x.rotateLeft k^^^c)<<<n) :
    x<<<k=x.rotateLeft k := by
  apply eq_of_getLsbD_eq
  intro i hi
  by_cases hik : i<k
  · have hz (z : BitVec 64) : (z<<<n).getLsbD (n+i)=z.getLsbD i := by
      rw [getLsbD_shiftLeft,decide_eq_true (by omega),decide_eq_false (by omega),Nat.add_sub_cancel_left]
      rfl
    have hbit := congrArg (getLsbD · (n+i)) h
    rwa [hz,hz,getLsbD_xor,getLsbD_xor,Bool.xor_left_inj] at hbit
  · rw [rotateLeft_eq hk,getLsbD_or,getLsbD_ushiftRight,getLsbD_of_ge x _ (by omega),Bool.or_false]
end

theorem sipRound_eq_iff (w : Words) : sipRound w=sipRoundSpec w ↔ w.Lossless := by
  change roundWith (·<<<·) w=roundWith rotateLeft w ↔ _
  simp only [roundWith,Words.mk.injEq,Words.Lossless]
  constructor
  · rintro ⟨h0,h1,h2,h3⟩
    -- the last rotations show that the first ones lose nothing either
    rw [h0,xor_left_inj] at h3
    obtain ⟨ha3,h3⟩ := shiftLeft_eq_rotateLeft (by decide) h3
    have hv3 := shiftLeft_xor_eq (by decide) (by decide) h3
    rw [hv3,BitVec.add_left_inj] at h0
    obtain ⟨ha2,h2⟩ := shiftLeft_eq_rotateLeft (by decide) h2
    have hv1 := shiftLeft_xor_eq (by decide) (by decide) (shiftLeft_eq_of_add h2)
    rw [hv1,xor_left_inj] at h1
    rw [hv1,hv3]
    exact ⟨⟨(shiftLeft_eq_rotateLeft (by decide) hv1).1,(shiftLeft_eq_rotateLeft (by decide) hv3).1⟩,
      ⟨(shiftLeft_eq_rotateLeft (by decide) h0).1,ha2⟩,(shiftLeft_eq_rotateLeft (by decide) h1).1,ha3⟩
  · rintro ⟨⟨hv1,hv3⟩,⟨ha0,ha2⟩,ha1,ha3⟩
    simp [rotateLeft_of_lossless (show 13<64 by decide) hv1,rotateLeft_of_lossless (show 16<64 by decide) hv3,
      rotateLeft_of_lossless (show 32<64 by decide) ha0,rotateLeft_of_lossless (show 32<64 by decide) ha2,
      rotateLeft_of_lossless (show 17<64 by decide) ha1,rotateLeft_of_lossless (show 21<64 by decide) ha3]

theorem getLsbD_eq_of_near_zero {x : BitVec 64} (h : x.toNat<2^60 ∨ 2^64 ≤ x.toNat+2^60) :
    x.getLsbD 63=x.getLsbD 60 := by
  have hlt := x.isLt
  rw [← testBit_toNat,← testBit_toNat,Nat.testBit_eq_decide_div_mod_eq,Nat.testBit_eq_decide_div_mod_eq]
  congr 1
  rw [eq_iff_iff]
  omega

theorem Words.Lossless.getLsbD_eq {w : Words} (h : w.Lossless) :
    w.v0.getLsbD 63=w.v0.getLsbD 60 ∧ w.v2.getLsbD 63=w.v2.getLsbD 60 := by
  obtain ⟨⟨hv1,hv3⟩,⟨ha0,ha2⟩,ha1,-⟩ := h
  have h2 : w.v2.getLsbD 63=w.v2.getLsbD 60 := by
    apply getLsbD_eq_of_near_zero
    generalize w.v1<<<13^^^w.v0+w.v1=a1 at ha1 ha2
    bv_omega
  have hsmall : w.v1.toNat<2^34 := by
    have hsum : (w.v0+w.v1)>>>47=0#64 := by bv_omega
    rw [ushiftRight_xor_distrib,hsum,xor_zero] at ha1
    bv_omega
  exact ⟨getLsbD_eq_of_near_zero (by bv_omega),h2⟩

/-- The constants of SipHash keep the first and the third word apart in their highest bits. -/
theorem not_lossless_sipInit : ¬(sipInit message keySrc keyDst).Lossless := by
  intro h
  obtain ⟨h0,h2⟩ := h.getLsbD_eq
  simp only [sipInit,getLsbD_xor] at h0 h2
  revert h0 h2
  cases keySrc.getLsbD 63 <;> cases keySrc.getLsbD 60 <;> decide

/-- `sip_hash` is SipHash but for its rounds.  A round is SipRound exactly if no shift drops a bit; the first
one always does. -/
theorem sipHash_rounds (w : Words) (message keySrc keyDst : BitVec 64) : (sipRound w=sipRoundSpec w ↔ w.Lossless) ∧
    (sipWords message keySrc keyDst).result=hashWith sipRound message keySrc keyDst ∧
    sipRound (sipInit message keySrc keyDst)≠sipRoundSpec (sipInit message keySrc keyDst) :=
  ⟨sipRound_eq_iff w,rfl,fun h => not_lossless_sipInit _ _ _ ((sipRound_eq_iff _).mp h)⟩

/-- Both pads for the message 0 under keys 0 differ from SipHash, and two states have the same next one. -/
theorem sipHash_zero_ne : ((sipHash 0 0 0 default).oneTimePadSrc≠(hashWith sipRoundSpec 0 0 0).setWidth 32 ∧
    (sipHash 0 0 0 default).oneTimePadDst≠(hashWith sipRoundSpec 0 0 0>>>32).setWidth 32) ∧
    ¬sipRound.Injective := by
  refine ⟨by decide +kernel,fun h => ?_⟩
  have hsame : sipRound ⟨0xfff8000000000000,0x8000000000000,0,0⟩=sipRound ⟨0,0,0,0⟩ := rfl
  cases h hsame
end P4Benchmarks.Spine
