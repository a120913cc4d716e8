import P4Benchmarks.P4rtOvs.UbpfExec
/-!
# Conditional jumps in the verifier

The ranges of the registers are kept as 64-bit words: `s` is compared as signed numbers, `u` as unsigned
ones.  `validate_jump` narrows them for each of the two branches: `other` is for the branch that is taken,
`curr` for the one that is not.
-/
namespace P4Benchmarks.P4rtOvs
open Ebpf BitVec
/-- `enum ubpf_reg_type`, with the one combination of its flags that registers can have. -/
inductive RegType where
  | uninit | unknown | nullValue | imm | mapPtr | mapValuePtr | mapValuePtrOrNull | pktPtr | pktSize
  | stackPtr | ctxPtr
deriving DecidableEq

structure RegState where
  type : RegType
  map : Option (BitVec 64)
  (sMin sMax uMin uMax : BitVec 64)
deriving DecidableEq
namespace RegState
structure Has (r : RegState) (v : BitVec 64) : Prop where
  sMin_le : r.sMin.toInt≤v.toInt
  le_sMax : v.toInt ≤ r.sMax.toInt
  uMin_le : r.uMin.toNat≤v.toNat
  le_uMax : v.toNat ≤ r.uMax.toNat

instance (r : RegState) (v : BitVec 64) : Decidable (r.Has v) :=
  decidable_of_iff (r.sMin.toInt≤v.toInt ∧ v.toInt ≤ r.sMax.toInt ∧ r.uMin.toNat≤v.toNat ∧ v.toNat ≤ r.uMax.toNat)
    ⟨fun h => ⟨h.1,h.2.1,h.2.2.1,h.2.2.2⟩,fun h => ⟨h.1,h.2,h.3,h.4⟩⟩

def int64Min : BitVec 64 := intMin 64
def int64Max : BitVec 64 := intMax 64
def unknown : RegState := ⟨.unknown,none,int64Min,int64Max,0,allOnes 64⟩

def ofImm (val : BitVec 32) : RegState :=
  ⟨.imm,none,val.signExtend 64,val.signExtend 64,val.signExtend 64,val.signExtend 64⟩

theorem has_unknown (v : BitVec 64) : unknown.Has v := by
  have hupper := @toInt_lt 64 v
  refine ⟨toInt_intMin_le v,?_,Nat.zero_le _,Nat.le_of_lt_succ v.isLt⟩
  show v.toInt≤(intMax 64).toInt
  rw [show (intMax 64).toInt=2^63-1 by decide]
  omega
end RegState

def nbRegs : Nat := 11

structure BpfState where
  regs : BitVec 4 → RegState
  stack : Nat → RegState
  instno : BitVec 32
  pktRange : BitVec 64
namespace BpfState
def setReg (st : BpfState) (r : BitVec 4) (v : RegState) : BpfState :=
  { st with regs := Function.update st.regs r v }
end BpfState

inductive AccessType where
  | read | write
deriving DecidableEq

inductive AccessFault where
  | invalidRegister (regno : BitVec 4)
  | uninitialized (regno : BitVec 4)
  | readOnly
deriving DecidableEq

def validateRegAccess (regs : BitVec 4 → RegState) (regno : BitVec 4) (t : AccessType) : Option AccessFault :=
  if nbRegs ≤ regno.toNat then some (.invalidRegister regno)
  else if t=.read ∧ (regs regno).type=.uninit then some (.uninitialized regno)
  else if regno=10 ∧ t=.write then some .readOnly
  else none
section
variable (x y : BitVec 64)
def umax : BitVec 64 := if y.toNat<x.toNat then x else y
def umin : BitVec 64 := if x.toNat<y.toNat then x else y
def smax : BitVec 64 := if y.toInt<x.toInt then x else y
def smin : BitVec 64 := if x.toInt<y.toInt then x else y
namespace RegState
variable (r : RegState) (val : BitVec 64)
def setConst : RegState := { r with sMin := val, sMax := val, uMin := val, uMax := val }
def setUMin : RegState := { r with uMin := val }
def setUMax : RegState := { r with uMax := val }
def setSMin : RegState := { r with sMin := val }
def setSMax : RegState := { r with sMax := val }
end RegState
namespace BpfState
def update (st : BpfState) (r : BitVec 4) (f : RegState → RegState) : BpfState := st.setReg r (f (st.regs r))

def learnPktRange (st : BpfState) (r : BitVec 4) : BpfState :=
  if (st.regs r).type=.pktSize ∧ st.pktRange.toNat<(st.regs r).uMin.toNat then
    { st with pktRange := (st.regs r).uMin }
  else st
end BpfState
namespace BpfState
variable (st : BpfState) (r : BitVec 4)
@[simp] theorem update_regs_self (f : RegState → RegState) : (st.update r f).regs r=f (st.regs r) := by
  simp [update,setReg]

@[simp] theorem learnPktRange_regs : (st.learnPktRange r).regs=st.regs := by
  rw [learnPktRange]
  split_ifs <;> rfl
end BpfState

structure Branches where
  (other curr : BpfState)
variable (b : Branches) (r : BitVec 4) (op : JumpOp) (val : BitVec 64)
def updateMinMaxJumpImm : Branches :=
  let b : Branches := match op with
    | .jeq => { b with other := b.other.update r (·.setConst val) }
    | .jgt => ⟨b.other.update r (·.setUMin (val+1)),b.curr.update r (·.setUMax val)⟩
    | .jge => ⟨b.other.update r (·.setUMin val),b.curr.update r (·.setUMax (val-1))⟩
    | .jset => b
    | .jne => { b with curr := b.curr.update r (·.setConst val) }
    | .jsgt => ⟨b.other.update r (·.setSMin (val+1)),b.curr.update r (·.setSMax val)⟩
    | .jsge => ⟨b.other.update r (·.setSMin val),b.curr.update r (·.setSMax (val-1))⟩
  ⟨b.other.learnPktRange r,b.curr.learnPktRange r⟩

def updateMinMaxJumpImmInv : Branches :=
  let b : Branches := match op with
    | .jeq => { b with other := b.other.update r (·.setConst val) }
    | .jgt => ⟨b.other.update r (·.setUMax (val-1)),b.curr.update r (·.setUMin val)⟩
    | .jge => ⟨b.other.update r (·.setUMax val),b.curr.update r (·.setUMin (val+1))⟩
    | .jset => b
    | .jne => { b with curr := b.curr.update r (·.setConst val) }
    | .jsgt => ⟨b.other.update r (·.setSMax (val-1)),b.curr.update r (·.setSMin val)⟩
    | .jsge => ⟨b.other.update r (·.setSMax val),b.curr.update r (·.setSMin (val+1))⟩
  ⟨b.other.learnPktRange r,b.curr.learnPktRange r⟩

def intersect {α : Type} [LE α] [DecidableLE α] (a b c d : α) : Bool :=
  (c≤a ∧ a≤d) ∨ (c≤b ∧ b≤d) ∨ (a ≤ c ∧ c≤b)

/-- The registers are equal: both get the common part of the signed ranges; `none` without one. -/
def intersectRegs (st : BpfState) (r1 r2 : BitVec 4) : Option BpfState :=
  let x := st.regs r1
  let y := st.regs r2
  if intersect x.sMin.toInt x.sMax.toInt y.sMin.toInt y.sMax.toInt ∧
      intersect x.uMin.toNat x.uMax.toNat y.uMin.toNat y.uMax.toNat then
    let st := st.update r1 fun z =>
      (z.setSMin (smax x.sMin y.sMin)).setSMax (smin x.sMax y.sMax)
    let z := st.regs r1
    some (st.update r2 fun w => (w.setSMin z.sMin).setSMax z.sMax)
  else none

/-- `update_min_max_jump_reg`.  Its result is not looked at; the assignments are made one after the
other, and the two registers may be the same one. -/
def updateMinMaxJumpReg (r1 r2 : BitVec 4) (op : JumpOp) : Branches :=
  let learn (b : Branches) : Branches :=
    ⟨(b.other.learnPktRange r1).learnPktRange r2,(b.curr.learnPktRange r1).learnPktRange r2⟩
  match op with
  | .jeq =>
    match intersectRegs b.other r1 r2 with
    | none => b
    | some other => learn { b with other := other }
  | .jgt =>
    let o := b.other.update r1 fun x => x.setUMin (umax x.uMin ((b.other.regs r2).uMin+1))
    let o := o.update r2 fun y => y.setUMax (umin ((o.regs r1).uMax-1) y.uMax)
    let c := b.curr.update r1 fun x => x.setUMax (umin x.uMax (b.curr.regs r2).uMax)
    let c := c.update r2 fun y => y.setUMin (umax (c.regs r1).uMin y.uMin)
    learn ⟨o,c⟩
  | .jge =>
    let o := b.other.update r1 fun x => x.setUMin (umax x.uMin (b.other.regs r2).uMin)
    let o := o.update r2 fun y => y.setUMax (umin (o.regs r1).uMax y.uMax)
    let c := b.curr.update r1 fun x => x.setUMax (umin x.uMax ((b.curr.regs r2).uMax-1))
    let c := c.update r2 fun y => y.setUMin (umax ((c.regs r1).uMin+1) y.uMin)
    learn ⟨o,c⟩
  | .jset => learn b
  | .jne =>
    match intersectRegs b.curr r1 r2 with
    | none => b
    | some curr => learn { b with curr := curr }
  | .jsgt =>
    let o := b.other.update r1 fun x => x.setSMin (smax x.sMin ((b.other.regs r2).sMin+1))
    let o := o.update r2 fun y => y.setSMax (smin ((o.regs r1).sMax-1) y.sMax)
    let c := b.curr.update r1 fun x => x.setSMax (smin x.sMax (b.curr.regs r2).sMax)
    let c := c.update r2 fun y => y.setSMin (smax (c.regs r1).sMin y.sMin)
    learn ⟨o,c⟩
  | .jsge =>
    let o := b.other.update r1 fun x => x.setSMin (smax x.sMin (b.other.regs r2).sMin)
    let o := o.update r2 fun y => y.setSMax (smin (o.regs r1).sMax y.sMax)
    let c := b.curr.update r1 fun x => x.setSMax (smin x.sMax ((b.curr.regs r2).sMax-1))
    let c := c.update r2 fun y => y.setSMin (smax ((c.regs r1).sMin+1) y.sMin)
    -- The code returns before the packet range is looked at.
    ⟨o,c⟩
end

def isScalar (type : RegType) : Bool := type=.unknown ∨ type=.pktSize

def updateNull (b : Branches) (dst : BitVec 4) (op : JumpOp) (source : Source) (imm : BitVec 32) : Branches :=
  if (b.curr.regs dst).type=.mapValuePtrOrNull ∧ (op=.jeq ∨ op=.jne) ∧ source=.imm ∧ imm=0 then
    ⟨b.other.update dst fun x => { x with type := if op=.jeq then .nullValue else .mapValuePtr },
      b.curr.update dst fun x => { x with type := if op=.jeq then .mapValuePtr else .nullValue }⟩
  else b

def updateRanges (b : Branches) (inst : EbpfInst) (op : JumpOp) (source : Source) : Branches :=
  let dst := b.curr.regs inst.dst
  let src := b.curr.regs inst.src
  match source with
  | .reg =>
    if dst.type=.imm then updateMinMaxJumpImmInv b inst.src op dst.uMin
    else if src.type=.imm then updateMinMaxJumpImm b inst.dst op src.uMin
    else if isScalar dst.type ∧ isScalar src.type then updateMinMaxJumpReg b inst.dst inst.src op
    else b
  | .imm => updateMinMaxJumpImm b inst.dst op (inst.imm.signExtend 64)

def validateJump (st : BpfState) (inst : EbpfInst) (op : JumpOp) (source : Source) : Except AccessFault Branches :=
  match validateRegAccess st.regs inst.dst .read with
  | some fault => .error fault
  | none =>
    match if source=.reg then validateRegAccess st.regs inst.src .read else none with
    | some fault => .error fault
    | none =>
      let other := { st with instno := st.instno+inst.offset.signExtend 32+1 }
      .ok (updateNull (updateRanges ⟨other,st⟩ inst op source) inst.dst op source inst.imm)
end P4Benchmarks.P4rtOvs
