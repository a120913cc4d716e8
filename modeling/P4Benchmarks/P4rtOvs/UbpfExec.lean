import Mathlib.Data.BitVec
/-!
# The interpreter

The opcodes of `ebpf.h`, put together from their parts, and `ubpf_exec` on a little-endian host.  What C leaves
undefined without a trap, the result of a shift by the width or more, is a parameter.
-/
namespace P4Benchmarks.P4rtOvs
structure EbpfInst where
  opcode : BitVec 8
  (dst src : BitVec 4)
  offset : BitVec 16
  imm : BitVec 32
deriving DecidableEq
namespace Ebpf
def clsLd : BitVec 8 := 0x00
def clsLdx : BitVec 8 := 0x01
def clsSt : BitVec 8 := 0x02
def clsStx : BitVec 8 := 0x03
def clsAlu : BitVec 8 := 0x04
def clsJmp : BitVec 8 := 0x05
def clsAlu64 : BitVec 8 := 0x07
def classOf (opcode : BitVec 8) : BitVec 8 := opcode&&&0x07
def opOf (opcode : BitVec 8) : BitVec 8 := opcode&&&0xf0
def modeImm : BitVec 8 := 0x00
def modeAbs : BitVec 8 := 0x20
def modeInd : BitVec 8 := 0x40
def modeMem : BitVec 8 := 0x60

inductive Source where
  | imm | reg
deriving DecidableEq

def Source.code : Source → BitVec 8
  | imm => 0x00
  | reg => 0x08

inductive Size where
  | w | h | b | dw
deriving DecidableEq

def Size.code : Size → BitVec 8
  | w => 0x00
  | h => 0x08
  | b => 0x10
  | dw => 0x18

def Size.bytes : Size → Nat
  | w => 4
  | h => 2
  | b => 1
  | dw => 8

inductive AluOp where
  | add | sub | mul | div | or | and | lsh | rsh | mod | xor | mov | arsh
deriving DecidableEq

def AluOp.code : AluOp → BitVec 8
  | add => 0x00
  | sub => 0x10
  | mul => 0x20
  | div => 0x30
  | or => 0x40
  | and => 0x50
  | lsh => 0x60
  | rsh => 0x70
  | mod => 0x90
  | xor => 0xa0
  | mov => 0xb0
  | arsh => 0xc0

def aluNeg : BitVec 8 := 0x80
def aluEnd : BitVec 8 := 0xd0

inductive JumpOp where
  | jeq | jgt | jge | jset | jne | jsgt | jsge
deriving DecidableEq

def JumpOp.code : JumpOp → BitVec 8
  | jeq => 0x10
  | jgt => 0x20
  | jge => 0x30
  | jset => 0x40
  | jne => 0x50
  | jsgt => 0x60
  | jsge => 0x70

def jmpJa : BitVec 8 := 0x00
def jmpCall : BitVec 8 := 0x80
def jmpExit : BitVec 8 := 0x90

inductive Width where
  | narrow | wide
deriving DecidableEq

def Width.cls : Width → BitVec 8
  | narrow => clsAlu
  | wide => clsAlu64

inductive Opcode where
  | alu (width : Width) (op : AluOp) (source : Source)
  | neg (width : Width)
  | le
  | be
  | ldabs (size : Size)
  | ldind (size : Size)
  | ldx (size : Size)
  | st (size : Size)
  | stx (size : Size)
  | lddw
  | ja
  | jump (op : JumpOp) (source : Source)
  | call
  | exit
deriving DecidableEq
namespace Opcode
def code : Opcode → BitVec 8
  | alu width op source => width.cls|||source.code|||op.code
  | neg width => width.cls|||aluNeg
  | le => clsAlu|||Source.imm.code|||aluEnd
  | be => clsAlu|||Source.reg.code|||aluEnd
  | ldabs size => clsLd|||modeAbs|||size.code
  | ldind size => clsLd|||modeInd|||size.code
  | ldx size => clsLdx|||modeMem|||size.code
  | st size => clsSt|||modeMem|||size.code
  | stx size => clsStx|||modeMem|||size.code
  | lddw => clsLd|||modeImm|||Size.dw.code
  | ja => clsJmp|||jmpJa
  | jump op source => clsJmp|||source.code|||op.code
  | call => clsJmp|||jmpCall
  | exit => clsJmp|||jmpExit

def sources : List Source := [.imm,.reg]
def sizes : List Size := [.w,.h,.b,.dw]
def widths : List Width := [.narrow,.wide]
def aluOps : List AluOp := [.add,.sub,.mul,.div,.or,.and,.lsh,.rsh,.mod,.xor,.mov,.arsh]
def jumpOps : List JumpOp := [.jeq,.jgt,.jge,.jset,.jne,.jsgt,.jsge]

def all : List Opcode :=
  widths.flatMap (fun w => aluOps.flatMap fun op => sources.map (alu w op))++widths.map neg ++
    [le,be]++sizes.map ldabs++sizes.map ldind++sizes.map ldx++sizes.map st ++
    sizes.map stx++[lddw,ja]++jumpOps.flatMap (fun op => sources.map (jump op))++[call,exit]
end Opcode

def decode (opcode : BitVec 8) : Option Opcode := Opcode.all.find? fun o => o.code=opcode

theorem code_of_decode {opcode : BitVec 8} {o : Opcode} (h : decode opcode=some o) : o.code=opcode := by
  have hfound := List.find?_some h
  simpa using hfound

theorem decode_zero : decode 0=none := by decide +kernel
end Ebpf
open Ebpf Function

def stackSize : Nat := 1024
abbrev Memory := BitVec 64 → BitVec 8

abbrev ExtFunc (σ : Type) :=
  BitVec 64 → BitVec 64 → BitVec 64 → BitVec 64 → BitVec 64 → Memory → σ → BitVec 64 × Memory × σ

structure UbpfVm (σ : Type) where
  insts : List EbpfInst
  extFuncs : Nat → Option (ExtFunc σ)

/-- The arguments of `ubpf_exec`, the place of its stack, and the results of shifts that are too
long. -/
structure Host where
  (mem memLen stack : BitVec 64)
  longShift : Width → AluOp → BitVec 64 → BitVec 64 → BitVec 64

structure Machine (σ : Type) where
  pc : BitVec 16
  reg : BitVec 4 → BitVec 64
  memory : Memory
  world : σ
namespace Machine
variable {σ : Type} (m : Machine σ)
def setReg (r : BitVec 4) (v : BitVec 64) : Machine σ := { m with reg := update m.reg r v }

/-- The state in which `ubpf_exec` enters its loop; the other registers hold what they held. -/
def start (host : Host) (reg : BitVec 4 → BitVec 64) (memory : Memory) (world : σ) : Machine σ :=
  { pc := 0
    reg := update (update reg 1 host.mem) 10 (host.stack+.ofNat 64 stackSize)
    memory := memory
    world := world }
end Machine

def u32 (x : BitVec 64) : BitVec 32 := x.setWidth 32
def low (x : BitVec 64) : BitVec 64 := x&&&0xffffffff

def aluOperand (source : Source) (inst : EbpfInst) (reg : BitVec 4 → BitVec 64) : BitVec 64 :=
  match source with
  | .imm => inst.imm.signExtend 64
  | .reg => reg inst.src

inductive AluResult where
  | value (v : BitVec 64)
  | divisionByZero
  /-- The divisor is zero although the check has passed. -/
  | trap
deriving DecidableEq

/-- `DIV` and `MOD`: the check is there for a register only, and looks at all of it. -/
def divide (source : Source) (b : BitVec 64) (divisorZero : Bool) (quotient : BitVec 64) : AluResult :=
  if source=.reg ∧ b=0 then .divisionByZero
  else if divisorZero then .trap
  else .value quotient

def aluValue (longShift : Width → AluOp → BitVec 64 → BitVec 64 → BitVec 64) (width : Width)
    (op : AluOp) (source : Source) (a b : BitVec 64) : AluResult :=
  match width, op with
  | .narrow, .add => .value (low (a+b))
  | .narrow, .sub => .value (low (a-b))
  | .narrow, .mul => .value (low (a*b))
  | .narrow, .div => divide source b (u32 b=0) (low ((u32 a/u32 b).setWidth 64))
  | .narrow, .or => .value (low (a|||b))
  | .narrow, .and => .value (low (a&&&b))
  | .narrow, .lsh => .value (low (if b.toNat<64 then a<<<b.toNat else longShift .narrow .lsh a b))
  | .narrow, .rsh =>
    .value (low (if b.toNat<32 then (u32 a>>>b.toNat).setWidth 64
      else longShift .narrow .rsh a b))
  | .narrow, .mod => divide source b (u32 b=0) ((u32 a%u32 b).setWidth 64)
  | .narrow, .xor => .value (low (a^^^b))
  | .narrow, .mov => .value (low b)
  | .narrow, .arsh =>
    .value (low (if (u32 b).toNat<32 then ((u32 a).sshiftRight (u32 b).toNat).signExtend 64
      else longShift .narrow .arsh a b))
  | .wide, .add => .value (a+b)
  | .wide, .sub => .value (a-b)
  | .wide, .mul => .value (a*b)
  | .wide, .div => divide source b (b=0) (a/b)
  | .wide, .or => .value (a|||b)
  | .wide, .and => .value (a&&&b)
  | .wide, .lsh => .value (if b.toNat<64 then a<<<b.toNat else longShift .wide .lsh a b)
  | .wide, .rsh => .value (if b.toNat<64 then a>>>b.toNat else longShift .wide .rsh a b)
  | .wide, .mod => divide source b (b=0) (a%b)
  | .wide, .xor => .value (a^^^b)
  | .wide, .mov => .value b
  | .wide, .arsh => .value (if b.toNat<64 then a.sshiftRight b.toNat else longShift .wide .arsh a b)

def negValue : Width → BitVec 64 → BitVec 64
  | .narrow, a => low (-a)
  | .wide, a => -a

def swapBytes (count : Nat) (x : BitVec 64) : BitVec 64 :=
  (List.range count).foldl (fun acc i => (acc<<<8)|||((x>>>(8*i))&&&0xff)) 0

def leValue (imm : BitVec 32) (a : BitVec 64) : BitVec 64 :=
  if imm=16 then a&&&0xffff else if imm=32 then low a else a

def beValue (imm : BitVec 32) (a : BitVec 64) : BitVec 64 :=
  if imm=16 then swapBytes 2 a
  else if imm=32 then swapBytes 4 a
  else if imm=64 then swapBytes 8 a
  else a

def boundsCheck (host : Host) (addr : BitVec 64) (size : Nat) : Bool :=
  let last := addr+.ofNat 64 size
  if host.mem≠0 ∧ host.mem.toNat≤addr.toNat ∧ last.toNat≤(host.mem+host.memLen).toNat then true
  else if host.stack.toNat≤addr.toNat ∧ last.toNat≤(host.stack+.ofNat 64 stackSize).toNat then true
  else false

def Memory.load (memory : Memory) (addr : BitVec 64) : Nat → BitVec 64
  | 0 => 0
  | n+1 => (load memory (addr+1) n<<<8)|||(memory addr).setWidth 64

def Memory.store (memory : Memory) (addr value : BitVec 64) : Nat → Memory
  | 0 => memory
  | n+1 => store (update memory addr (value.setWidth 8)) (addr+1) (value>>>8) n
variable (op : JumpOp)
/-- `JGT` and `JGE` read the immediate operand as an unsigned number, the others as a signed one. -/
def jumpImm (imm : BitVec 32) : BitVec 64 :=
  match op with
  | .jgt | .jge => imm.setWidth 64
  | _ => imm.signExtend 64

def jumpTaken (a b : BitVec 64) : Bool :=
  match op with
  | .jeq => a=b
  | .jgt => b.toNat<a.toNat
  | .jge => b.toNat≤a.toNat
  | .jset => a&&&b≠0
  | .jne => a≠b
  | .jsgt => b.toInt<a.toInt
  | .jsge => b.toInt≤a.toInt

def jumpOperand (source : Source) (inst : EbpfInst) (reg : BitVec 4 → BitVec 64) : BitVec 64 :=
  match source with
  | .imm => jumpImm op inst.imm
  | .reg => reg inst.src

inductive ExecResult (σ : Type) where
  | running (m : Machine σ)
  /-- `EXIT`, or one of the errors with `UINT64_MAX`. -/
  | returned (v : BitVec 64)
  | trapped
  | outOfBounds
section
variable {σ : Type} (vm : UbpfVm σ) (host : Host)
def execError : ExecResult σ := .returned (BitVec.allOnes 64)

def execInst (m : Machine σ) (inst : EbpfInst) : Opcode → ExecResult σ
  | .alu width op source =>
    match aluValue host.longShift width op source (m.reg inst.dst) (aluOperand source inst m.reg) with
    | .value v => .running (m.setReg inst.dst v)
    | .divisionByZero => execError
    | .trap => .trapped
  | .neg width => .running (m.setReg inst.dst (negValue width (m.reg inst.dst)))
  | .le => .running (m.setReg inst.dst (leValue inst.imm (m.reg inst.dst)))
  | .be => .running (m.setReg inst.dst (beValue inst.imm (m.reg inst.dst)))
  | .ldabs _ | .ldind _ => .running m
  | .ldx size =>
    let addr := m.reg inst.src+inst.offset.signExtend 64
    if boundsCheck host addr size.bytes then .running (m.setReg inst.dst (m.memory.load addr size.bytes))
    else execError
  | .st size =>
    let addr := m.reg inst.dst+inst.offset.signExtend 64
    if boundsCheck host addr size.bytes then
      .running { m with memory := m.memory.store addr (inst.imm.signExtend 64) size.bytes }
    else execError
  | .stx size =>
    let addr := m.reg inst.dst+inst.offset.signExtend 64
    if boundsCheck host addr size.bytes then
      .running { m with memory := m.memory.store addr (m.reg inst.src) size.bytes }
    else execError
  | .lddw =>
    match vm.insts[m.pc.toNat]? with
    | none => .outOfBounds
    | some second =>
      .running { m.setReg inst.dst (inst.imm.setWidth 64|||(second.imm.signExtend 64<<<32)) with pc := m.pc+1 }
  | .ja => .running { m with pc := m.pc+inst.offset }
  | .jump op source =>
    if jumpTaken op (m.reg inst.dst) (jumpOperand op source inst m.reg) then
      .running { m with pc := m.pc+inst.offset }
    else .running m
  | .call =>
    match vm.extFuncs inst.imm.toNat with
    | none => .trapped
    | some func =>
      let (v,memory,world) := func (m.reg 1) (m.reg 2) (m.reg 3) (m.reg 4) (m.reg 5) m.memory m.world
      .running { m.setReg 0 v with memory := memory, world := world }
  | .exit => .returned (m.reg 0)

def execStep (m : Machine σ) : ExecResult σ :=
  match vm.insts[m.pc.toNat]? with
  | none => .outOfBounds
  | some inst =>
    let m := { m with pc := m.pc+1 }
    match decode inst.opcode with
    | none => .running m
    | some opcode => execInst vm host m inst opcode

def execRun : Nat → Machine σ → ExecResult σ
  | 0, m => .running m
  | fuel+1, m =>
    match execStep vm host m with
    | .running m' => execRun fuel m'
    | result => result
end
end P4Benchmarks.P4rtOvs
