import P4Benchmarks.P4rtOvs.UbpfExec
/-!
# The first two passes of the verifier

`validate_instructions` looks at each instruction by itself; `validate_cfg` walks over the
control-flow graph and looks for back edges.
-/
namespace P4Benchmarks.P4rtOvs
open Ebpf
def maxInsts : Nat := 65536
def maxExtFuncs : Nat := 64

inductive InstFault where
  | invalidShift
  | invalidEndian
  | incompleteLddw
  | jumpOutOfBounds
  | jumpToMiddleOfLddw
  | invalidCall
  | nonexistentFunction (imm : BitVec 32)
  | divisionByZero
  | unknownOpcode (opcode : BitVec 8)
  | invalidSource
  | invalidDestination
deriving DecidableEq

def InstFault.text : InstFault → String
  | invalidShift => "invalid shift"
  | invalidEndian => "invalid endian immediate"
  | incompleteLddw => "incomplete lddw"
  | jumpOutOfBounds => "jump out of bounds"
  | jumpToMiddleOfLddw => "jump to middle of lddw"
  | invalidCall => "invalid call immediate"
  | nonexistentFunction imm => "call to nonexistent function " ++ toString imm.toNat
  | divisionByZero => "division by zero"
  | unknownOpcode opcode => "unknown opcode 0x" ++ opcode.toHex
  | invalidSource => "invalid source register"
  | invalidDestination => "invalid destination register"

structure InstError where
  fault : InstFault
  pc : Nat
deriving DecidableEq

def InstError.message (e : InstError) : String := e.fault.text ++ " at PC " ++ toString e.pc
def jumpTarget (i : Nat) (inst : EbpfInst) : Int := i+1+inst.offset.toInt

section
variable {σ : Type} (vm : UbpfVm σ)
def checkOpcode (i : Nat) (inst : EbpfInst) : Opcode → Option InstFault
  | .alu width op source =>
    match op, source with
    | .lsh, .imm | .rsh, .imm | .arsh, .imm =>
      if inst.imm.toInt<0 ∨ (match width with | .narrow => 32 | .wide => 64) ≤ inst.imm.toInt then
        some .invalidShift
      else none
    | .div, .imm | .mod, .imm => if inst.imm=0 then some .divisionByZero else none
    | _, _ => none
  | .le | .be => if inst.imm≠16 ∧ inst.imm≠32 ∧ inst.imm≠64 then some .invalidEndian else none
  | .lddw =>
    match vm.insts[i+1]? with
    | none => some .incompleteLddw
    | some second => if second.opcode≠0 then some .incompleteLddw else none
  | .ja | .jump _ _ =>
    let newPc := jumpTarget i inst
    if newPc<0 ∨ vm.insts.length≤newPc then some .jumpOutOfBounds
    else if (vm.insts[newPc.toNat]?).any (·.opcode=0) then some .jumpToMiddleOfLddw
    else none
  | .call =>
    if inst.imm.toInt<0 ∨ maxExtFuncs ≤ inst.imm.toInt then some .invalidCall
    else if (vm.extFuncs inst.imm.toNat).isNone then some (.nonexistentFunction inst.imm)
    else none
  | _ => none

def isStore : Opcode → Bool
  | .st _ | .stx _ => true
  | _ => false

def checkRegisters (inst : EbpfInst) (store : Bool) : Option InstFault :=
  if 10 < inst.src.toNat then some .invalidSource
  else if 9 < inst.dst.toNat ∧ ¬(store ∧ inst.dst=10) then some .invalidDestination
  else none

/-- The loop from index `i` on.  After a `lddw` it skips a slot, and it has already done so when it
looks at the registers. -/
def validateFrom : Nat → List EbpfInst → Except InstError Unit
  | _, [] => .ok ()
  | i, inst::rest =>
    match decode inst.opcode with
    | none => .error ⟨.unknownOpcode inst.opcode,i⟩
    | some opcode =>
      match checkOpcode vm i inst opcode with
      | some fault => .error ⟨fault,i⟩
      | none =>
        match opcode, rest with
        | .lddw, _::rest =>
          match checkRegisters inst false with
          | some fault => .error ⟨fault,i+1⟩
          | none => validateFrom (i+2) rest
        | _, rest =>
          match checkRegisters inst (isStore opcode) with
          | some fault => .error ⟨fault,i⟩
          | none => validateFrom (i+1) rest

def validateInstructions : Except InstError Unit := validateFrom vm 0 vm.insts
end

inductive VertexStatus where
  | undiscovered | discovered | explored
deriving DecidableEq

def VertexStatus.rank : VertexStatus → Nat
  | undiscovered => 0
  | discovered => 1
  | explored => 2

inductive EdgeStatus where
  | unlabeled | branch1Labeled | branch2Labeled
deriving DecidableEq

def EdgeStatus.rank : EdgeStatus → Nat
  | unlabeled => 0
  | branch1Labeled => 1
  | branch2Labeled => 2

structure CfgState where
  s : List Nat
  vertices : List VertexStatus
  edges : List EdgeStatus
  depth : Nat
deriving DecidableEq

inductive CfgExit where
  | accepted
  | backEdge (v u : Nat)
  | outOfBounds
deriving DecidableEq

def readAt {α : Type} (l : List α) (i : Nat) : Except CfgExit α :=
  match l[i]? with
  | some a => .ok a
  | none => .error .outOfBounds

def writeAt {α : Type} (l : List α) (i : Nat) (a : α) : Except CfgExit (List α) :=
  if i<l.length then .ok (l.set i a) else .error .outOfBounds

def exploreCfgEdge (c : CfgState) (v u : Nat) (branch : EdgeStatus) : Except CfgExit (CfgState × Bool) := do
  let status ← readAt c.vertices v
  let label ← readAt c.edges v
  if VertexStatus.discovered.rank ≤ status.rank ∧ branch.rank≤label.rank then return (c,false)
  match ← readAt c.vertices u with
  | .undiscovered =>
    let edges ← writeAt c.edges v branch
    let vertices ← writeAt c.vertices v .discovered
    let vertices ← writeAt vertices u .discovered
    return ({ c with vertices := vertices, edges := edges },true)
  | .explored =>
    let edges ← writeAt c.edges v branch
    let vertices ← writeAt c.vertices v .discovered
    return ({ c with vertices := vertices, edges := edges },false)
  | .discovered => throw (.backEdge v u)

def branchTarget (v : Nat) (inst : EbpfInst) : Nat := (.ofNat 32 (v+1)+inst.offset.signExtend 32).toNat

def cfgEdges (v : Nat) (inst : EbpfInst) : List (Nat × EdgeStatus) :=
  if classOf inst.opcode=clsJmp then
    if opOf inst.opcode=jmpJa then [(branchTarget v inst,.branch1Labeled)]
    else if opOf inst.opcode=jmpCall then [(v+1,.branch1Labeled)]
    else if opOf inst.opcode=jmpExit then []
    else [(v+1,.branch1Labeled),(branchTarget v inst,.branch2Labeled)]
  else [(v+1,.branch1Labeled)]

def visitEdges (c : CfgState) (v : Nat) : List (Nat × EdgeStatus) → Except CfgExit CfgState
  | [] => do
    let vertices ← writeAt c.vertices v .explored
    return { c with vertices := vertices, depth := c.depth-1 }
  | (u,branch)::rest => do
    let (c,fresh) ← exploreCfgEdge c v u branch
    if fresh then
      let s ← writeAt c.s c.depth u
      return { c with s := s, depth := c.depth+1 }
    else visitEdges c v rest

def cfgRound (insts : List EbpfInst) (c : CfgState) : Except CfgExit CfgState := do
  if c.depth=0 then throw .accepted
  let v ← readAt c.s (c.depth-1)
  let inst ← readAt insts v
  visitEdges c v (cfgEdges v inst)

def cfgLoop (insts : List EbpfInst) : Nat → CfgState → Option CfgExit
  | 0, _ => none
  | fuel+1, c =>
    match cfgRound insts c with
    | .error exit => some exit
    | .ok c => cfgLoop insts fuel c

def cfgStart (numInsts : Nat) : Except CfgExit CfgState := do
  let s ← writeAt (List.replicate numInsts 0) 0 0
  let vertices ← writeAt (List.replicate numInsts .undiscovered) 0 .discovered
  return ⟨s,vertices,List.replicate numInsts .unlabeled,1⟩

/-- `none` if the loop has not come to an end after two rounds for each instruction. -/
def validateCfg (insts : List EbpfInst) : Option CfgExit :=
  match cfgStart insts.length with
  | .error exit => some exit
  | .ok c => cfgLoop insts (2*insts.length) c
end P4Benchmarks.P4rtOvs
