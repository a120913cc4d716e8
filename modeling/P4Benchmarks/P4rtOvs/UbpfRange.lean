import P4Benchmarks.P4rtOvs.UbpfJump
/-!
# Ranges of arithmetic results in the verifier

`update_min_max_alu_op`.  Signed sums and products wrap around.  What C leaves open besides is a
parameter.
-/
namespace P4Benchmarks.P4rtOvs
open Ebpf BitVec
/-- Results that C does not define. -/
structure Undefined where
  clzZero : BitVec 64
  longShr : BitVec 64 → BitVec 64 → BitVec 64
  nrUMax : BitVec 64
namespace Ebpf.Width
def mask : Width → BitVec 64
  | narrow => 0xffffffff
  | wide => allOnes 64

def opsize : Width → BitVec 64
  | narrow => 32
  | wide => 64

def sLow (width : Width) : BitVec 64 := (width.mask>>>1)^^^allOnes 64
def sHigh (width : Width) : BitVec 64 := width.mask>>>1
end Ebpf.Width
section
variable (ud : Undefined)
def shr (x n : BitVec 64) : BitVec 64 := if n.toNat<64 then x>>>n.toNat else ud.longShr x n
def clz (x : BitVec 64) : BitVec 64 := if x=0 then ud.clzZero else .ofNat 64 (63-x.toNat.log2)
variable (a b opsize : BitVec 64)
def computeBitwiseAndBound : BitVec 64 := shr ud (allOnes 64) (64-(opsize-umax (clz ud a) (clz ud b)))
def computeBitwiseOrBound : BitVec 64 := shr ud (allOnes 64) (64-(opsize-umin (clz ud a) (clz ud b)))
end
namespace RegState

/-- `handle_min_max_overflows`; the upper signed bound is compared as an unsigned number. -/
def handleMinMaxOverflows (width : Width) (r : RegState) : RegState :=
  let r := if r.uMin&&&width.mask≠r.uMin ∨ r.uMax&&&width.mask≠r.uMax then
      { r with uMax := umax width.mask r.uMax, uMin := 0 }
    else r
  { r with sMax := umin width.sHigh r.sMax, sMin := smax width.sLow r.sMin }
variable (r : RegState) (lo hi : BitVec 64)
def setU : RegState := { r with uMin := lo, uMax := hi }
def setS : RegState := { r with sMin := lo, sMax := hi }
def fullS (width : Width) : RegState := r.setS width.sLow width.sHigh
def fullU (ud : Undefined) (width : Width) : RegState := r.setU 0 (umax width.mask ud.nrUMax)
def constU (d s : RegState) : Bool := d.uMin=d.uMax ∧ s.uMin=s.uMax
def constS (d s : RegState) : Bool := d.sMin=d.sMax ∧ s.sMin=s.sMax
end RegState
open RegState
section Operators
variable (ud : Undefined) (width : Width) (d s : RegState)
def addUnsigned : RegState :=
  let uMin := (d.uMin+s.uMin)&&&width.mask
  let uMax := (d.uMax+s.uMax)&&&width.mask
  if (uMin.toNat<d.uMin.toNat ∨ uMax.toNat<d.uMax.toNat) ∧ !constU d s then d.setU 0 (umax width.mask uMax)
  else d.setU uMin uMax

def addRange : RegState :=
  let sMin := (d.sMin+s.sMin)&&&width.mask
  let sMax := (d.sMax+s.sMax)&&&width.mask
  if (((s.sMin.toInt<0 ∧ d.sMin.toInt < sMin.toInt) ∨ sMin.toInt<d.sMin.toInt) ∨
      ((s.sMax.toInt<0 ∧ d.sMax.toInt < sMax.toInt) ∨ sMax.toInt<d.sMax.toInt)) ∧
      !constS d s then
    (addUnsigned width d s).fullS width
  else (addUnsigned width d s).setS sMin sMax

def subUnsigned : RegState :=
  let uMin := (d.uMin-s.uMin)&&&width.mask
  let uMax := (d.uMax-s.uMax)&&&width.mask
  if (d.uMin.toNat<uMin.toNat ∨ d.uMax.toNat<uMax.toNat) ∧ !constU d s then d.setU 0 (umax width.mask uMax)
  else d.setU uMin uMax

def subRange : RegState :=
  let sMin := (d.sMin-s.sMin)&&&width.mask
  let sMax := (d.sMax-s.sMax)&&&width.mask
  if (((s.sMin.toInt<0 ∧ sMin.toInt<d.sMin.toInt) ∨ d.sMin.toInt < sMin.toInt) ∨
      ((s.sMax.toInt<0 ∧ sMax.toInt<d.sMax.toInt) ∨ d.sMax.toInt < sMax.toInt)) ∧
      !constS d s then
    (subUnsigned width d s).fullS width
  else (subUnsigned width d s).setS sMin sMax

def mulUnsigned : RegState :=
  if constU d s then d.setU ((d.uMin*s.uMin)&&&width.mask) ((d.uMax*s.uMax)&&&width.mask)
  else if d.uMax.toNat≤(width.mask>>>(width.opsize.toNat/2)).toNat ∧
      s.uMax.toNat≤(shr ud width.mask width.opsize).toNat then
    -- The lower bound is squared, here and below.
    d.setU (d.uMin*d.uMin) (d.uMax*s.uMax)
  else d.fullU ud width

def mulRange : RegState :=
  let r := mulUnsigned ud width d s
  if constS d s then r.setS ((d.sMin*s.sMin)&&&width.mask) ((d.sMax*s.sMax)&&&width.mask)
  else if 0≤d.sMin.toInt ∧ 0 ≤ s.sMin.toInt then r.setS (d.sMin*d.sMin) (d.sMax*s.sMax)
  else r.fullS width
section Bitwise
variable (f : BitVec 64 → BitVec 64 → BitVec 64) (bound : BitVec 64 → BitVec 64 → BitVec 64 → BitVec 64)

def bitwiseUnsigned : RegState :=
  if constU d s then d.setU (f d.uMin s.uMin) (f d.uMax s.uMax)
  else d.setU (f d.uMin s.uMin) (bound d.uMax s.uMax width.opsize)

def bitwiseRange : RegState :=
  let r := bitwiseUnsigned width d s f bound
  if constS d s then r.setS (f d.sMin s.sMin) (f d.sMax s.sMax)
  else if 0≤d.sMin.toInt ∨ 0 ≤ s.sMin.toInt then
    r.setS (f d.sMin s.sMin) (bound (d.sMax&&&(width.mask>>>1)) (s.sMax&&&(width.mask>>>1)) width.opsize)
  else r.fullS width
end Bitwise

def andRange : RegState := bitwiseRange width d s (·&&&·) (computeBitwiseAndBound ud)
def orRange : RegState := bitwiseRange width d s (·|||·) (computeBitwiseOrBound ud)

def lshUnsigned : RegState :=
  if d.uMax.toNat≤(shr ud (allOnes 64) (64-(width.opsize-s.uMax))).toNat then
    d.setU (d.uMin<<<s.uMin.toNat) (d.uMax<<<s.uMax.toNat)
  else d.fullU ud width

def lshRange : RegState :=
  if width.opsize.toNat ≤ s.uMax.toNat then (d.fullU ud width).fullS width
  else if d.sMin.sshiftRight (width.opsize.toNat-1)=0 ∧ d.sMax.toInt <
      (shr ud (allOnes 64) (64-(width.opsize-s.uMax-1))).toInt then
    (lshUnsigned ud width d s).setS (d.sMin<<<s.uMin.toNat) (d.sMax<<<s.uMax.toNat)
  else (lshUnsigned ud width d s).fullS width

def rshRange : RegState :=
  if width.opsize.toNat ≤ s.uMax.toNat then (d.fullU ud width).fullS width
  else
    let r := d.setU (d.uMin>>>s.uMin.toNat) (d.uMax>>>s.uMax.toNat)
    if d.sMin>>>(width.opsize.toNat-1)=0 then
      r.setS (d.sMin.sshiftRight s.uMin.toNat) (d.sMax.sshiftRight s.uMax.toNat)
    else r.fullS width

def opRange (op : AluOp) : RegState :=
  match op with
  | .add => addRange width d s
  | .sub => subRange width d s
  | .mul => mulRange ud width d s
  | .and => andRange ud width d s
  | .or => orRange ud width d s
  | .lsh => lshRange ud width d s
  | .rsh => rshRange ud width d s
  | .div | .mod | .xor | .mov | .arsh => (d.fullU ud width).fullS width
end Operators

def srcRange (width : Width) (source : Source) (inst : EbpfInst) (regs : BitVec 4 → RegState) : RegState :=
  match source with
  | .reg => (regs inst.src).handleMinMaxOverflows width
  | .imm => .ofImm inst.imm

def updateMinMaxAluOp (ud : Undefined) (regs : BitVec 4 → RegState) (inst : EbpfInst) (width : Width)
    (op : AluOp) (source : Source) : RegState :=
  opRange ud width ((regs inst.dst).handleMinMaxOverflows width) (srcRange width source inst regs) op
end P4Benchmarks.P4rtOvs
