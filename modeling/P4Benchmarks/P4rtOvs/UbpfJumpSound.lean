import P4Benchmarks.P4rtOvs.UbpfJump
/-!
# When the ranges of the branches are right

A state is right about registers if their values lie in its ranges.  The branch that the interpreter
takes has a state that is right again, if the verifier and the interpreter agree on the operands.
-/
namespace P4Benchmarks.P4rtOvs
open Ebpf Branches RegState BpfState
open BitVec hiding not_not not_or
attribute [local simp] updateMinMaxJumpImmInv
section Bounds
variable {a v : BitVec 64}
theorem toNat_add_one (h : a.toNat+1<2^64) : (a+1).toNat=a.toNat+1 := by
  rw [toNat_add,show (1 : BitVec 64).toNat=1 from rfl,Nat.mod_eq_of_lt h]

theorem toNat_add_one_le (h : a.toNat<v.toNat) : (a+1).toNat≤v.toNat := by
  rw [toNat_add_one (by omega)]
  exact h

theorem le_toNat_sub_one (h : v.toNat<a.toNat) : v.toNat≤(a-1).toNat := by
  rw [toNat_sub,show (1 : BitVec 64).toNat=1 from rfl]
  omega

theorem toInt_add_one_le (h : a.toInt<v.toInt) : (a+1).toInt≤v.toInt := by
  have hupper := @toInt_lt 64 v
  have hlower := le_toInt a
  rw [toInt_add,show (1 : BitVec 64).toInt=1 from rfl,Int.bmod_eq_of_le (by omega) (by omega)]
  omega

theorem le_toInt_sub_one (h : v.toInt<a.toInt) : v.toInt≤(a-1).toInt := by
  have hupper := @toInt_lt 64 a
  have hlower := le_toInt v
  rw [toInt_sub,show (1 : BitVec 64).toInt=1 from rfl,Int.bmod_eq_of_le (by omega) (by omega)]
  omega
variable {x y : BitVec 64}
theorem toNat_umax_le (hx : x.toNat≤v.toNat) (hy : y.toNat≤v.toNat) : (umax x y).toNat≤v.toNat := by
  rw [umax]
  split_ifs <;> assumption

theorem le_toNat_umin (hx : v.toNat≤x.toNat) (hy : v.toNat≤y.toNat) : v.toNat≤(umin x y).toNat := by
  rw [umin]
  split_ifs <;> assumption

theorem toInt_smax_le (hx : x.toInt≤v.toInt) (hy : y.toInt≤v.toInt) : (smax x y).toInt≤v.toInt := by
  rw [smax]
  split_ifs <;> assumption

theorem le_toInt_smin (hx : v.toInt≤x.toInt) (hy : v.toInt≤y.toInt) : v.toInt≤(smin x y).toInt := by
  rw [smin]
  split_ifs <;> assumption
end Bounds
namespace RegState.Has
variable {r : RegState} {v val : BitVec 64}
theorem setConst (r : RegState) (v : BitVec 64) : (r.setConst v).Has v := ⟨le_rfl,le_rfl,le_rfl,le_rfl⟩
variable (h : r.Has v)
include h
theorem setUMin (hval : val.toNat≤v.toNat) : (r.setUMin val).Has v := ⟨h.sMin_le,h.le_sMax,hval,h.le_uMax⟩
theorem setUMax (hval : v.toNat≤val.toNat) : (r.setUMax val).Has v := ⟨h.sMin_le,h.le_sMax,h.uMin_le,hval⟩
theorem setSMin (hval : val.toInt≤v.toInt) : (r.setSMin val).Has v := ⟨hval,h.le_sMax,h.uMin_le,h.le_uMax⟩
theorem setSMax (hval : v.toInt≤val.toInt) : (r.setSMax val).Has v := ⟨h.sMin_le,hval,h.uMin_le,h.le_uMax⟩

theorem retype (type : RegType) : ({ r with type := type } : RegState).Has v :=
  ⟨h.sMin_le,h.le_sMax,h.uMin_le,h.le_uMax⟩
end RegState.Has

/-- The ranges and the packet range are right about registers with these values and a packet of this
length; registers of type `PKT_SIZE` hold the length. -/
structure BpfState.Right (st : BpfState) (values : BitVec 4 → BitVec 64) (len : Nat) : Prop where
  has : ∀ r, r.toNat<nbRegs → (st.regs r).Has (values r)
  size : ∀ r, r.toNat<nbRegs → (st.regs r).type=.pktSize → (values r).toNat=len
  range_le : st.pktRange.toNat≤len
namespace BpfState.Right
variable {st : BpfState} {values : BitVec 4 → BitVec 64} {len : Nat} {r : BitVec 4} {f : RegState → RegState}
variable (h : st.Right values len)
include h
theorem update (hhas : (f (st.regs r)).Has (values r))
    (htype : (f (st.regs r)).type=.pktSize → (st.regs r).type=.pktSize) : (st.update r f).Right values len := by
  refine ⟨fun r' hr' => ?_,fun r' hr' hsize => ?_,h.range_le⟩
  · by_cases heq : r'=r
    · subst heq
      simpa [BpfState.update,setReg] using hhas
    · simpa [BpfState.update,setReg,heq] using h.has r' hr'
  · by_cases heq : r'=r
    · subst heq
      refine h.size r' hr' (htype ?_)
      simpa [BpfState.update,setReg] using hsize
    · refine h.size r' hr' ?_
      simpa [BpfState.update,setReg,heq] using hsize

theorem narrow (hhas : (f (st.regs r)).Has (values r)) (htype : (f (st.regs r)).type=(st.regs r).type) :
    (st.update r f).Right values len :=
  h.update hhas htype.symm.trans

theorem narrow_two {r' : BitVec 4} (hr : r.toNat<nbRegs) (hr' : r'.toNat<nbRegs) {g : RegState → RegState → RegState}
    (hf : (f (st.regs r)).Has (values r)) (hg : ∀ x y, x.Has (values r) → y.Has (values r') → (g x y).Has (values r'))
    (hftype : (f (st.regs r)).type=(st.regs r).type) (hgtype : ∀ x y, (g x y).type=y.type) :
    ((st.update r f).update r' (g ((st.update r f).regs r))).Right values len :=
  have hfirst := h.narrow hf hftype
  hfirst.narrow (hg _ _ (hfirst.has r hr) (hfirst.has r' hr')) (hgtype _ _)

theorem moveTo (n : BitVec 32) : BpfState.Right { st with instno := n } values len := ⟨h.has,h.size,h.range_le⟩

theorem learnPktRange (hr : r.toNat<nbRegs) : (st.learnPktRange r).Right values len := by
  rw [BpfState.learnPktRange]
  split_ifs with hlearn
  · refine ⟨h.has,h.size,?_⟩
    rw [← h.size r hr hlearn.1]
    exact (h.has r hr).uMin_le
  · exact h
end BpfState.Right

@[local simp] def Branches.taken (b : Branches) (op : JumpOp) (x y : BitVec 64) : BpfState :=
  if jumpTaken op x y then b.other else b.curr
section Updates
variable {b : Branches} {values : BitVec 4 → BitVec 64} {len : Nat} {r : BitVec 4} {op : JumpOp}
  {val : BitVec 64}

theorem updateMinMaxJumpImm_right (hother : b.other.Right values len) (hcurr : b.curr.Right values len)
    (hr : r.toNat<nbRegs) : ((updateMinMaxJumpImm b r op val).taken op (values r) val).Right values len := by
  have hhas := hother.has r hr
  have hhas' := hcurr.has r hr
  rw [taken]
  split_ifs with htaken
  · refine BpfState.Right.learnPktRange ?_ hr
    cases op <;> simp only [jumpTaken,decide_eq_true_eq] at htaken <;> dsimp only [updateMinMaxJumpImm]
    case jeq =>
      subst htaken
      exact hother.narrow (.setConst _ _) rfl
    case jgt => exact hother.narrow (hhas.setUMin (toNat_add_one_le htaken)) rfl
    case jge => exact hother.narrow (hhas.setUMin htaken) rfl
    case jset => exact hother
    case jne => exact hother
    case jsgt => exact hother.narrow (hhas.setSMin (toInt_add_one_le htaken)) rfl
    case jsge => exact hother.narrow (hhas.setSMin htaken) rfl
  · refine BpfState.Right.learnPktRange ?_ hr
    cases op <;> simp only [jumpTaken,decide_eq_true_eq,not_lt,not_le,ne_eq,not_not] at htaken <;>
      dsimp only [updateMinMaxJumpImm]
    case jeq => exact hcurr
    case jgt => exact hcurr.narrow (hhas'.setUMax htaken) rfl
    case jge => exact hcurr.narrow (hhas'.setUMax (le_toNat_sub_one htaken)) rfl
    case jset => exact hcurr
    case jne =>
      subst htaken
      exact hcurr.narrow (.setConst _ _) rfl
    case jsgt => exact hcurr.narrow (hhas'.setSMax htaken) rfl
    case jsge => exact hcurr.narrow (hhas'.setSMax (le_toInt_sub_one htaken)) rfl

theorem taken_right (hother : b.other.Right values len) (hcurr : b.curr.Right values len) (x y : BitVec 64) :
    (b.taken op x y).Right values len := by
  rw [taken]
  split_ifs
  · exact hother
  · exact hcurr

def dualJump : JumpOp → JumpOp
  | .jeq => .jne
  | .jgt => .jge
  | .jge => .jgt
  | .jset => .jset
  | .jne => .jeq
  | .jsgt => .jsge
  | .jsge => .jsgt

theorem jumpTaken_dualJump (hop : op≠.jset) (x y : BitVec 64) : jumpTaken (dualJump op) y x=!jumpTaken op x y := by
  cases op <;> grind [jumpTaken,dualJump]

theorem updateMinMaxJumpImmInv_eq : updateMinMaxJumpImmInv b r op val =
    ⟨(updateMinMaxJumpImm ⟨b.curr,b.other⟩ r (dualJump op) val).curr,
      (updateMinMaxJumpImm ⟨b.curr,b.other⟩ r (dualJump op) val).other⟩ := by
  cases op <;> rfl

theorem updateMinMaxJumpImmInv_right (hother : b.other.Right values len) (hcurr : b.curr.Right values len)
    (hr : r.toNat<nbRegs) : ((updateMinMaxJumpImmInv b r op val).taken op val (values r)).Right values len := by
  by_cases hop : op=.jset
  · subst hop
    exact taken_right (hother.learnPktRange hr) (hcurr.learnPktRange hr) _ _
  · have hdual : ((updateMinMaxJumpImm ⟨b.curr,b.other⟩ r (dualJump op) val).taken (dualJump op)
        (values r) val).Right values len := updateMinMaxJumpImm_right hcurr hother hr
    rw [taken,jumpTaken_dualJump hop] at hdual
    rw [updateMinMaxJumpImmInv_eq,taken]
    cases htaken : jumpTaken op val (values r) <;> simpa [htaken] using hdual
variable {r1 r2 : BitVec 4}
theorem intersectRegs_right {st st' : BpfState} (h : st.Right values len) (hr1 : r1.toNat<nbRegs)
    (hr2 : r2.toNat<nbRegs) (heq : values r1=values r2)
    (hinter : intersectRegs st r1 r2=some st') : st'.Right values len := by
  have h1 := h.has r1 hr1
  have h2 := h.has r2 hr2
  rw [← heq] at h2
  simp only [intersectRegs,Option.ite_none_right_eq_some,Option.some.injEq] at hinter
  rw [← hinter.2]
  have hfirst : (st.update r1 fun z => (z.setSMin (smax (st.regs r1).sMin (st.regs r2).sMin)).setSMax
      (smin (st.regs r1).sMax (st.regs r2).sMax)).Right values len :=
    h.narrow ((h1.setSMin (toInt_smax_le h1.sMin_le h2.sMin_le)).setSMax (le_toInt_smin h1.le_sMax h2.le_sMax)) rfl
  have hz := hfirst.has r1 hr1
  rw [heq] at hz
  exact hfirst.narrow (((hfirst.has r2 hr2).setSMin hz.sMin_le).setSMax hz.le_sMax) rfl

theorem learn_right {st : BpfState} (h : st.Right values len) (hr1 : r1.toNat<nbRegs)
    (hr2 : r2.toNat<nbRegs) : ((st.learnPktRange r1).learnPktRange r2).Right values len :=
  (h.learnPktRange hr1).learnPktRange hr2

theorem updateMinMaxJumpReg_other (h : b.other.Right values len) (hr1 : r1.toNat<nbRegs) (hr2 : r2.toNat<nbRegs)
    (htaken : jumpTaken op (values r1) (values r2)) : (updateMinMaxJumpReg b r1 r2 op).other.Right values len := by
  have h1 := h.has r1 hr1
  have h2 := h.has r2 hr2
  cases op <;> simp only [jumpTaken,decide_eq_true_eq] at htaken <;> simp only [updateMinMaxJumpReg]
  case jeq =>
    cases hinter : intersectRegs b.other r1 r2 with
    | none => exact h
    | some other => exact learn_right (intersectRegs_right h hr1 hr2 htaken hinter) hr1 hr2
  case jgt =>
    have hlower := toNat_add_one_le (Nat.lt_of_le_of_lt h2.uMin_le htaken)
    exact learn_right (h.narrow_two (g := fun x y => y.setUMax (umin (x.uMax-1) y.uMax)) hr1 hr2
      (h1.setUMin (toNat_umax_le h1.uMin_le hlower))
      (fun _ _ hx hy => hy.setUMax (le_toNat_umin (le_toNat_sub_one (Nat.lt_of_lt_of_le htaken hx.le_uMax)) hy.le_uMax))
      rfl fun _ _ => rfl) hr1 hr2
  case jge =>
    exact learn_right (h.narrow_two (g := fun x y => y.setUMax (umin x.uMax y.uMax)) hr1 hr2
      (h1.setUMin (toNat_umax_le h1.uMin_le (Nat.le_trans h2.uMin_le htaken)))
      (fun _ _ hx hy => hy.setUMax (le_toNat_umin (Nat.le_trans htaken hx.le_uMax) hy.le_uMax))
      rfl fun _ _ => rfl) hr1 hr2
  case jset => exact learn_right h hr1 hr2
  case jne =>
    cases intersectRegs b.curr r1 r2 with
    | none => exact h
    | some curr => exact learn_right h hr1 hr2
  case jsgt =>
    have hlower := toInt_add_one_le (Int.lt_of_le_of_lt h2.sMin_le htaken)
    exact learn_right (h.narrow_two (g := fun x y => y.setSMax (smin (x.sMax-1) y.sMax)) hr1 hr2
      (h1.setSMin (toInt_smax_le h1.sMin_le hlower))
      (fun _ _ hx hy => hy.setSMax (le_toInt_smin (le_toInt_sub_one (Int.lt_of_lt_of_le htaken hx.le_sMax)) hy.le_sMax))
      rfl fun _ _ => rfl) hr1 hr2
  case jsge =>
    exact h.narrow_two (g := fun x y => y.setSMax (smin x.sMax y.sMax)) hr1 hr2
      (h1.setSMin (toInt_smax_le h1.sMin_le (Int.le_trans h2.sMin_le htaken)))
      (fun _ _ hx hy => hy.setSMax (le_toInt_smin (Int.le_trans htaken hx.le_sMax) hy.le_sMax))
      rfl fun _ _ => rfl

theorem updateMinMaxJumpReg_curr (h : b.curr.Right values len) (hr1 : r1.toNat<nbRegs) (hr2 : r2.toNat<nbRegs)
    (htaken : ¬jumpTaken op (values r1) (values r2)) : (updateMinMaxJumpReg b r1 r2 op).curr.Right values len := by
  have h1 := h.has r1 hr1
  have h2 := h.has r2 hr2
  cases op <;> simp only [jumpTaken,decide_eq_true_eq,not_lt,not_le,ne_eq,not_not] at htaken <;>
    simp only [updateMinMaxJumpReg]
  case jeq =>
    cases intersectRegs b.other r1 r2 with
    | none => exact h
    | some other => exact learn_right h hr1 hr2
  case jgt =>
    exact learn_right (h.narrow_two (g := fun x y => y.setUMin (umax x.uMin y.uMin)) hr1 hr2
      (h1.setUMax (le_toNat_umin h1.le_uMax (Nat.le_trans htaken h2.le_uMax)))
      (fun _ _ hx hy => hy.setUMin (toNat_umax_le (Nat.le_trans hx.uMin_le htaken) hy.uMin_le))
      rfl fun _ _ => rfl) hr1 hr2
  case jge =>
    have hupper := le_toNat_sub_one (Nat.lt_of_lt_of_le htaken h2.le_uMax)
    exact learn_right (h.narrow_two (g := fun x y => y.setUMin (umax (x.uMin+1) y.uMin)) hr1 hr2
      (h1.setUMax (le_toNat_umin h1.le_uMax hupper))
      (fun _ _ hx hy => hy.setUMin (toNat_umax_le (toNat_add_one_le (Nat.lt_of_le_of_lt hx.uMin_le htaken)) hy.uMin_le))
      rfl fun _ _ => rfl) hr1 hr2
  case jset => exact learn_right h hr1 hr2
  case jne =>
    cases hinter : intersectRegs b.curr r1 r2 with
    | none => exact h
    | some curr => exact learn_right (intersectRegs_right h hr1 hr2 htaken hinter) hr1 hr2
  case jsgt =>
    exact learn_right (h.narrow_two (g := fun x y => y.setSMin (smax x.sMin y.sMin)) hr1 hr2
      (h1.setSMax (le_toInt_smin h1.le_sMax (Int.le_trans htaken h2.le_sMax)))
      (fun _ _ hx hy => hy.setSMin (toInt_smax_le (Int.le_trans hx.sMin_le htaken) hy.sMin_le))
      rfl fun _ _ => rfl) hr1 hr2
  case jsge =>
    have hupper := le_toInt_sub_one (Int.lt_of_lt_of_le htaken h2.le_sMax)
    exact h.narrow_two (g := fun x y => y.setSMin (smax (x.sMin+1) y.sMin)) hr1 hr2
      (h1.setSMax (le_toInt_smin h1.le_sMax hupper))
      (fun _ _ hx hy => hy.setSMin (toInt_smax_le (toInt_add_one_le (Int.lt_of_le_of_lt hx.sMin_le htaken)) hy.sMin_le))
      rfl fun _ _ => rfl

theorem updateMinMaxJumpReg_right (hother : b.other.Right values len)
    (hcurr : b.curr.Right values len) (hr1 : r1.toNat<nbRegs) (hr2 : r2.toNat<nbRegs) :
    ((updateMinMaxJumpReg b r1 r2 op).taken op (values r1) (values r2)).Right values len := by
  rw [taken]
  split_ifs with htaken
  · exact updateMinMaxJumpReg_other hother hr1 hr2 htaken
  · exact updateMinMaxJumpReg_curr hcurr hr1 hr2 htaken

theorem updateNull_right {dst : BitVec 4} {source : Source} {imm : BitVec 32} {x y : BitVec 64}
    (h : (b.taken op x y).Right values len) (hdst : dst.toNat<nbRegs) :
    ((updateNull b dst op source imm).taken op x y).Right values len := by
  by_cases hnull : (b.curr.regs dst).type=.mapValuePtrOrNull ∧ (op=.jeq ∨ op=.jne) ∧ source=.imm ∧ imm=0
  · rw [updateNull,if_pos hnull]
    rw [taken] at h ⊢
    by_cases htaken : jumpTaken op x y
    all_goals
      simp only [htaken,if_true,Bool.false_eq_true,if_false] at h ⊢
      refine h.update ?_ ?_
      · exact (h.has dst hdst).retype _
      · cases op <;> simp
  · rwa [updateNull,if_neg hnull]
end Updates
section Jumps
variable {st : BpfState} {inst : EbpfInst} {op : JumpOp} {source : Source} {b : Branches}
theorem validateJump_ok (h : validateJump st inst op source=.ok b) :
    inst.dst.toNat<nbRegs ∧ (source=.reg → inst.src.toNat<nbRegs) ∧
      b=updateNull (updateRanges ⟨{ st with instno := st.instno+inst.offset.signExtend 32+1 },
        st⟩ inst op source) inst.dst op source inst.imm := by
  have hlt : ∀ r, validateRegAccess st.regs r .read=none → r.toNat<nbRegs := by
    intro r hr
    by_contra hge
    simp [validateRegAccess,Nat.not_lt.mp hge] at hr
  rw [validateJump] at h
  cases hdst : validateRegAccess st.regs inst.dst .read with
  | some fault => simp [hdst] at h
  | none =>
    cases source with
    | imm =>
      simp only [hdst,reduceCtorEq,if_false,Except.ok.injEq] at h
      exact ⟨hlt _ hdst,by simp,h.symm⟩
    | reg =>
      cases hsrc : validateRegAccess st.regs inst.src .read with
      | some fault => simp [hdst,hsrc] at h
      | none =>
        simp only [hdst,hsrc,if_true,Except.ok.injEq] at h
        exact ⟨hlt _ hdst,fun _ => hlt _ hsrc,h.symm⟩

def JumpSoundAt (st : BpfState) (inst : EbpfInst) (op : JumpOp) (source : Source) : Prop :=
  ∀ (values : BitVec 4 → BitVec 64) (len : Nat), st.Right values len → ∀ b, validateJump st inst op source=.ok b →
      (b.taken op (values inst.dst) (jumpOperand op source inst values)).Right values len

def ImmAgrees (op : JumpOp) (imm : BitVec 32) : Prop :=
  (op=.jgt → 0 ≤ imm.toInt ∨ imm = -1) ∧ (op=.jge → 0 ≤ imm.toInt)

/-- The operand whose lower bound the verifier takes for its value is constant. -/
def ConstantOperands (st : BpfState) (inst : EbpfInst) : Prop :=
  if (st.regs inst.dst).type=.imm then (st.regs inst.dst).uMin=(st.regs inst.dst).uMax
  else (st.regs inst.src).type=.imm → (st.regs inst.src).uMin=(st.regs inst.src).uMax

theorem signExtend_eq_setWidth {imm : BitVec 32} (h : 0 ≤ imm.toInt) : imm.signExtend 64=imm.setWidth 64 := by
  apply signExtend_eq_setWidth_of_msb_false
  simpa [msb_eq_toInt] using h
variable {values : BitVec 4 → BitVec 64}
theorem updateMinMaxJumpImm_largest {len : Nat} {r : BitVec 4} {val : BitVec 64}
    (hval : ∀ v : BitVec 64, v.toNat≤val.toNat) (hsucc : (val+1).toNat=0) (hother : b.other.Right values len)
    (hcurr : b.curr.Right values len) (hr : r.toNat<nbRegs) (y : BitVec 64) :
    ((updateMinMaxJumpImm b r .jgt val).taken .jgt (values r) y).Right values len := by
  have hlower : (val+1).toNat≤(values r).toNat := by
    rw [hsucc]
    exact Nat.zero_le _
  rw [taken]
  split_ifs
  · refine BpfState.Right.learnPktRange ?_ hr
    dsimp only
    exact hother.narrow ((hother.has r hr).setUMin hlower) rfl
  · refine BpfState.Right.learnPktRange ?_ hr
    dsimp only
    exact hcurr.narrow ((hcurr.has r hr).setUMax (hval _)) rfl

theorem jumpSoundAt_imm (hagrees : ImmAgrees op inst.imm) : JumpSoundAt st inst op .imm := by
  intro values len hright b hb
  obtain ⟨hdst,-,rfl⟩ := validateJump_ok hb
  refine updateNull_right ?_ hdst
  have hright' := hright.moveTo (st.instno+inst.offset.signExtend 32+1)
  by_cases hminus : op=.jgt ∧ inst.imm = -1
  · obtain ⟨rfl,himm⟩ := hminus
    have hval : (inst.imm.signExtend 64).toNat=2^64-1 := by
      rw [himm]
      decide
    have hsucc : (inst.imm.signExtend 64+1).toNat=0 := by
      rw [himm]
      decide
    exact updateMinMaxJumpImm_largest (fun v => hval ▸ Nat.le_of_lt_succ v.isLt) hsucc hright' hright hdst _
  · have hsame : jumpOperand op .imm inst values=inst.imm.signExtend 64 := by
      simp only [jumpOperand,jumpImm]
      split
      · exact (signExtend_eq_setWidth ((hagrees.1 rfl).resolve_right fun h => hminus ⟨rfl,h⟩)).symm
      · exact (signExtend_eq_setWidth (hagrees.2 rfl)).symm
      · rfl
    rw [hsame]
    exact updateMinMaxJumpImm_right hright' hright hdst

theorem jumpSoundAt_reg (hconst : ConstantOperands st inst) : JumpSoundAt st inst op .reg := by
  intro values len hright b hb
  obtain ⟨hdst,hsrc,rfl⟩ := validateJump_ok hb
  have hsrc := hsrc rfl
  refine updateNull_right ?_ hdst
  have hright' := hright.moveTo (st.instno+inst.offset.signExtend 32+1)
  have hvalue {r : BitVec 4} (hlt : r.toNat<nbRegs) (hsame : (st.regs r).uMin=(st.regs r).uMax) :
      values r=(st.regs r).uMin := by
    have hhas := hright.has r hlt
    have hle := hhas.le_uMax
    rw [← hsame] at hle
    exact eq_of_toNat_eq (Nat.le_antisymm hle hhas.uMin_le)
  rw [ConstantOperands] at hconst
  simp only [updateRanges,jumpOperand]
  split_ifs at hconst ⊢ with hdimm hsimm hscalar
  · rw [hvalue hdst hconst]
    exact updateMinMaxJumpImmInv_right hright' hright hsrc
  · rw [hvalue hsrc (hconst hsimm)]
    exact updateMinMaxJumpImm_right hright' hright hdst
  · exact updateMinMaxJumpReg_right hright' hright hdst hsrc
  · exact taken_right hright' hright _ _



@[local simp] def openState (regs : BitVec 4 → RegState) : BpfState := ⟨regs,fun _ => .unknown,0,0⟩
@[local simp] def wideImm : RegState := { unknown with type := .imm, uMin := 5 }
theorem right_openState {regs : BitVec 4 → RegState} (hhas : ∀ r, (regs r).Has (values r))
    (hsize : ∀ r, (regs r).type≠.pktSize) : (openState regs).Right values 0 :=
  ⟨fun r _ => hhas r,fun r _ h => absurd h (hsize r),le_rfl⟩

theorem validateJump_eq (hdst : inst.dst.toNat<nbRegs) (hsrc : inst.src.toNat<nbRegs)
    (hinit : ∀ r, (st.regs r).type≠.uninit) (hnull : source=.reg ∨ op≠.jeq ∧ op≠.jne) :
    validateJump st inst op source =
      .ok (updateRanges ⟨{ st with instno := st.instno+inst.offset.signExtend 32+1 },st⟩ inst op source) := by
  have hread : ∀ r : BitVec 4, r.toNat<nbRegs → validateRegAccess st.regs r .read=none := by
    intro r hr
    simp [validateRegAccess,Nat.not_le.mpr hr,hinit]
  have hskip : ∀ b, updateNull b inst.dst op source inst.imm=b := by
    intro b
    refine if_neg ?_
    rintro ⟨-,hop,hsource,-⟩
    rcases hnull with rfl | ⟨hjeq,hjne⟩
    · cases hsource
    · exact hop.elim hjeq hjne
  simp [validateJump,hread _ hdst,hread _ hsrc,hskip]

theorem not_jumpSoundAt_imm (hdst : inst.dst.toNat<nbRegs) (hsrc : inst.src.toNat<nbRegs)
    (hagrees : ¬ImmAgrees op inst.imm) :
    ¬JumpSoundAt (openState fun _ => .unknown) inst op .imm := by
  intro hsound
  have hlarge (hneg : inst.imm.toInt<0) : (inst.imm.signExtend 64).toNat=inst.imm.toNat+(2^64-2^32) := by
    have hmsb : inst.imm.msb := by simpa [msb_eq_toInt] using hneg
    rw [toNat_signExtend,if_pos hmsb,toNat_setWidth_of_le (by decide)]
  have hinit : ∀ r, ((openState fun _ => .unknown).regs r).type≠.uninit := by simp [unknown]
  have hright (values : BitVec 4 → BitVec 64) : (openState fun _ => .unknown).Right values 0 :=
    right_openState (fun r => has_unknown _) (by simp [unknown])
  simp only [ImmAgrees,not_and_or,Classical.not_imp,not_or,not_le] at hagrees
  rcases hagrees with ⟨rfl,hneg,hminus⟩ | ⟨rfl,hneg⟩
  · have hlarge := hlarge hneg
    have hne : inst.imm.toNat≠2^32-1 := fun heq => hminus (eq_of_toNat_eq heq)
    have htaken := hsound (fun _ => inst.imm.setWidth 64+1) 0 (hright _) _
      (validateJump_eq hdst hsrc hinit (.inr (by decide)))
    have hmin := (htaken.has inst.dst hdst).uMin_le
    have hvalue : (inst.imm.setWidth 64+1).toNat=inst.imm.toNat+1 := by
      rw [toNat_add_one,toNat_setWidth_of_le (by decide)]
      rw [toNat_setWidth_of_le (by decide)]
      omega
    have hbound : (inst.imm.signExtend 64+1).toNat=inst.imm.toNat+(2^64-2^32)+1 := by
      rw [toNat_add_one (by omega),hlarge]
    rw [taken,if_pos] at hmin
    · simp only [updateRanges,updateMinMaxJumpImm,learnPktRange_regs,
        update_regs_self,RegState.setUMin] at hmin
      omega
    · simp [jumpTaken,jumpOperand,jumpImm]
      omega
  · have htaken := hsound (fun _ => inst.imm.setWidth 64) 0 (hright _) _
      (validateJump_eq hdst hsrc hinit (.inr (by decide)))
    have hmin := (htaken.has inst.dst hdst).uMin_le
    simp [jumpTaken,jumpOperand,jumpImm,updateRanges,updateMinMaxJumpImm,RegState.setUMin] at hmin
    omega

theorem has_wideImm {v : BitVec 64} (h : 5≤v.toNat) : wideImm.Has v :=
  ⟨(has_unknown v).sMin_le,(has_unknown v).le_sMax,h,(has_unknown v).le_uMax⟩

@[local simp] def wideState (r : BitVec 4) : BpfState :=
  openState (Function.update (fun _ => .unknown) r wideImm)

theorem right_wideState {r : BitVec 4} (h : 5≤(values r).toNat) : (wideState r).Right values 0 := by
  refine right_openState (fun r' => ?_) fun r' => ?_
  · by_cases heq : r'=r
    · subst heq
      simpa using has_wideImm h
    · simpa [heq] using has_unknown _
  · by_cases heq : r'=r
    · subst heq
      simp
    · simp [heq,unknown]

theorem not_jumpSoundAt_reg (hdst : inst.dst.toNat<nbRegs) (hsrc : inst.src.toNat<nbRegs)
    (hop : ¬(op=.jset ∨ op=.jgt ∧ inst.dst=inst.src)) : ¬JumpSoundAt (wideState inst.dst) inst op .reg := by
  intro hsound
  have hinit : ∀ r, ((wideState inst.dst).regs r).type≠.uninit := by
    intro r
    by_cases heq : r=inst.dst
    · simp [heq]
    · simp [heq,unknown]
  have htaken (values : BitVec 4 → BitVec 64) (h : 5≤(values inst.dst).toNat) :=
    (hsound values 0 (right_wideState h) _ (validateJump_eq hdst hsrc hinit (.inl rfl))).has inst.src hsrc
  have htype : ((wideState inst.dst).regs inst.dst).type=.imm := by simp
  have hmin : ((wideState inst.dst).regs inst.dst).uMin=5 := by simp
  simp only [updateRanges,htype,hmin,if_true,jumpOperand] at htaken
  cases op with
  | jeq | jne =>
    have hmax := (htaken (fun _ => 6) (by decide)).le_uMax
    simp [jumpTaken,RegState.setConst] at hmax
  | jgt =>
    have hne : inst.src≠inst.dst := fun heq => hop (.inr ⟨rfl,heq.symm⟩)
    have hmax := (htaken (Function.update (fun _ => 6) inst.dst 7) (by simp)).le_uMax
    simp [jumpTaken,RegState.setUMax,hne] at hmax
  | jge =>
    have hmax := (htaken (fun _ => 6) (by decide)).le_uMax
    simp [jumpTaken,RegState.setUMax] at hmax
  | jset => simp at hop
  | jsgt =>
    have hmin := (htaken (fun _ => allOnes 64) (by decide)).sMin_le
    simp [jumpTaken,RegState.setSMin] at hmin
  | jsge =>
    have hmax := (htaken (fun _ => 6) (by decide)).le_sMax
    simp [jumpTaken,RegState.setSMax] at hmax

theorem jumpSoundAt_reg_of_op (hop : op=.jset ∨ op=.jgt ∧ inst.dst=inst.src) : JumpSoundAt st inst op .reg := by
  intro values len hright b hb
  obtain ⟨hdst,hsrc,rfl⟩ := validateJump_ok hb
  have hsrc := hsrc rfl
  refine updateNull_right ?_ hdst
  have hright' := hright.moveTo (st.instno+inst.offset.signExtend 32+1)
  simp only [updateRanges,jumpOperand]
  split_ifs with hdimm hsimm hscalar
  · rcases hop with rfl | ⟨rfl,heq⟩
    · exact taken_right (hright'.learnPktRange hsrc) (hright.learnPktRange hsrc) _ _
    · rw [heq,taken,if_neg (by simp [jumpTaken])]
      refine BpfState.Right.learnPktRange ?_ hsrc
      dsimp only
      exact hright.narrow ((hright.has _ hsrc).setUMin (hright.has _ hsrc).uMin_le) rfl
  · rcases hop with rfl | ⟨rfl,heq⟩
    · exact taken_right (hright'.learnPktRange hdst) (hright.learnPktRange hdst) _ _
    · exact absurd (heq ▸ hsimm) hdimm
  · exact updateMinMaxJumpReg_right hright' hright hdst hsrc
  · exact taken_right hright' hright _ _

def JumpFits (inst : EbpfInst) (op : JumpOp) : Source → Prop
  | .imm => ImmAgrees op inst.imm
  | .reg => op=.jset ∨ op=.jgt ∧ inst.dst=inst.src

/-- The ranges of the branch that is taken are right in every state exactly if the jump fits; and
for registers, in every state in which the operand taken for a constant is one. -/
theorem jumpSound_iff (inst : EbpfInst) (op : JumpOp) (source : Source)
    (hdst : inst.dst.toNat<nbRegs) (hsrc : inst.src.toNat<nbRegs) :
    ((∀ st, JumpSoundAt st inst op source) ↔ JumpFits inst op source) ∧
      ∀ st, ConstantOperands st inst → JumpSoundAt st inst op .reg := by
  refine ⟨⟨fun h => ?_,fun h st => ?_⟩,fun st hconst => jumpSoundAt_reg hconst⟩
  · cases source with
    | imm =>
      by_contra hfits
      exact not_jumpSoundAt_imm hdst hsrc hfits (h _)
    | reg =>
      by_contra hfits
      exact not_jumpSoundAt_reg hdst hsrc hfits (h _)
  · cases source with
    | imm => exact jumpSoundAt_imm h
    | reg => exact jumpSoundAt_reg_of_op h

private def aboveMinusFive : EbpfInst := ⟨(Opcode.jump .jgt .imm).code,2,0,3,-5⟩
private def notBelow : EbpfInst := ⟨(Opcode.jump .jge .reg).code,1,2,3,0⟩

theorem notBelow_sound : ConstantOperands (openState fun _ => .unknown) notBelow ∧
      JumpSoundAt (openState fun _ => .unknown) notBelow .jge .reg := by
  have hconst : ConstantOperands (openState fun _ => .unknown) notBelow := by simp [ConstantOperands,unknown]
  exact ⟨hconst,(jumpSound_iff notBelow .jge .reg (by decide) (by decide)).2 _ hconst⟩

/-- The value `2 ^ 32` is larger than `-5` read as 32 bits; the verifier takes it for smaller.  And a
register of type `IMM` that can be 6 is taken for 5. -/
theorem jump_unsound : ¬JumpSoundAt (openState fun _ => .unknown) aboveMinusFive .jgt .imm ∧
      ¬JumpSoundAt (wideState 1) notBelow .jge .reg := by
  have hreg : ¬JumpSoundAt (wideState notBelow.dst) notBelow .jge .reg :=
    not_jumpSoundAt_reg (by decide) (by decide) (by decide)
  refine ⟨not_jumpSoundAt_imm (by decide) (by decide) ?_,hreg⟩
  simp [ImmAgrees,aboveMinusFive]
end Jumps
end P4Benchmarks.P4rtOvs
