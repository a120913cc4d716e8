import Mathlib.Data.List.Chain
import P4Benchmarks.P4xos.Header
/-!
# The leader switch

`leader.p4`: a request is stamped with the instance number in a register, which is read and written
through one extern with two opcodes.
-/
namespace P4Benchmarks.P4xos.Leader
def regRead : BitVec 8 := 0
def regWrite : BitVec 8 := 0

structure InstanceReg where
  rw : (BitVec 1 → BitVec 32) → BitVec 1 → BitVec 32 → BitVec 8 → BitVec 32 × (BitVec 1 → BitVec 32)
  read_opcode : ∀ reg index newVal, rw reg index newVal 0=(reg index,reg)
  write_opcode : ∀ reg index newVal, (rw reg index newVal 1).2=Function.update reg index newVal

/-- The metadata that the pipeline writes; `mark_to_drop` sets `drop`. -/
structure Metadata where
  setDrop : BitVec 1
  dstPort : BitVec 8
  drop : Bool
deriving DecidableEq

def markToDrop (m : Metadata) : Metadata := { m with drop := true }

inductive LeaderAction where
  | increaseInstance | resetInstance | drop
deriving DecidableEq

structure Config where
  ctrlInstaneReg : InstanceReg
  leaderTbl : BitVec 16 → LeaderAction
  transportTbl : BitVec 1 → Option (BitVec 4 × BitVec 16)

structure State where
  reg : BitVec 1 → BitVec 32
  hdr : Headers
  meta' : Metadata
variable (cfg : Config) (s : State)
def increaseInstance : State :=
  let (currentInstance,reg) := cfg.ctrlInstaneReg.rw s.reg 0 0 regRead
  let hdr := { s.hdr with paxos := s.hdr.paxos.map fun p => { p with inst := currentInstance } }
  let (_,reg) := cfg.ctrlInstaneReg.rw reg 0 (currentInstance+1) regWrite
  ⟨reg,hdr,{ s.meta' with setDrop := 0 }⟩

def resetInstance : State :=
  let (_,reg) := cfg.ctrlInstaneReg.rw s.reg 0 0 regWrite
  ⟨reg,s.hdr,{ s.meta' with setDrop := 1 }⟩

def applyLeaderTbl (p : Paxos) (s : State) : State :=
  match cfg.leaderTbl p.msgtype with
  | .increaseInstance => increaseInstance cfg s
  | .resetInstance => resetInstance cfg s
  | .drop => { s with meta' := markToDrop s.meta' }

def applyTransportTbl : State :=
  match cfg.transportTbl s.meta'.setDrop with
  | some (port,acceptorPort) =>
    { s with
      hdr := { s.hdr with udp := s.hdr.udp.map fun _ => ⟨acceptorPort⟩ }
      meta' := { s.meta' with dstPort := port.zeroExtend 8 } }
  | none => { s with meta' := markToDrop s.meta' }

def topPipe : State :=
  match s.hdr.ipv4, s.hdr.paxos with
  | some _, some p => applyTransportTbl cfg (applyLeaderTbl cfg p s)
  | _, _ => s

def Selects (action : LeaderAction) (hdr : Headers) : Prop :=
  hdr.ipv4.isSome ∧ hdr.Carries fun p => cfg.leaderTbl p.msgtype=action

instance (action : LeaderAction) : DecidablePred (Selects cfg action) :=
  fun _ => inferInstanceAs (Decidable (_ ∧ _))

def instances : (BitVec 1 → BitVec 32) → List (Headers × Metadata) → List (BitVec 32)
  | _, [] => []
  | reg, (hdr,m)::packets =>
    let out := topPipe cfg ⟨reg,hdr,m⟩
    (if Selects cfg .increaseInstance hdr then (out.hdr.paxos.map Paxos.inst).toList else []) ++
      instances out.reg packets
variable {cfg}
@[simp] theorem applyTransportTbl_reg : (applyTransportTbl cfg s).reg=s.reg := by
  unfold applyTransportTbl
  split <;> rfl

@[simp] theorem applyTransportTbl_paxos : (applyTransportTbl cfg s).hdr.paxos=s.hdr.paxos := by
  unfold applyTransportTbl
  split <;> rfl
variable (reg : BitVec 1 → BitVec 32) (v : BitVec 32)
theorem rw_regWrite : cfg.ctrlInstaneReg.rw reg 0 v regWrite=(reg 0,reg) :=
  cfg.ctrlInstaneReg.read_opcode reg 0 v

theorem rw_regRead : cfg.ctrlInstaneReg.rw reg 0 v regRead=(reg 0,reg) := cfg.ctrlInstaneReg.read_opcode reg 0 v

theorem increaseInstance_eq : increaseInstance cfg s =
      ⟨s.reg,{ s.hdr with paxos := s.hdr.paxos.map fun p => { p with inst := s.reg 0 } },
        { s.meta' with setDrop := 0 }⟩ := by
  simp only [increaseInstance,rw_regRead,rw_regWrite]

theorem resetInstance_reg : (resetInstance cfg s).reg=s.reg := by
  unfold resetInstance
  rw [rw_regWrite]

theorem topPipe_reg : (topPipe cfg s).reg=s.reg := by
  unfold topPipe
  split
  · rw [applyTransportTbl_reg]
    unfold applyLeaderTbl
    split
    · rw [increaseInstance_eq]
    · exact resetInstance_reg s
    · rfl
  · rfl

theorem topPipe_inst {s : State} (h : Selects cfg .increaseInstance s.hdr) :
    (topPipe cfg s).hdr.paxos.map Paxos.inst=some (s.reg 0) := by
  obtain ⟨hip,p,hp,haction⟩ := h
  obtain ⟨ip,hip⟩ := Option.isSome_iff_exists.mp hip
  simp [topPipe,hip,hp,applyTransportTbl_paxos,applyLeaderTbl,haction,increaseInstance_eq,Option.map_some]

theorem instances_eq_replicate (packets : List (Headers × Metadata)) : instances cfg reg packets =
      List.replicate (packets.countP fun x => Selects cfg .increaseInstance x.1) (reg 0) := by
  induction packets generalizing reg with
  | nil => rfl
  | cons x packets ih =>
    obtain ⟨hdr,m⟩ := x
    rw [instances,topPipe_reg,ih]
    by_cases h : Selects cfg .increaseInstance hdr
    · rw [if_pos h,topPipe_inst h,List.countP_cons_of_pos (by simpa using h)]
      rfl
    · rw [if_neg h,List.countP_cons_of_neg (by simpa using h)]
      rfl

/-- The numbers of a run are consecutive exactly if it has at most one request. -/
theorem instances_consecutive_iff (reg : BitVec 1 → BitVec 32) (packets : List (Headers × Metadata)) :
    (instances cfg reg packets).IsChain (fun a b => b=a+1) ↔
      packets.countP (fun x => Selects cfg .increaseInstance x.1)≤1 := by
  rw [instances_eq_replicate]
  generalize packets.countP (fun x => Selects cfg .increaseInstance x.1)=n
  cases n with
  | zero => simp
  | succ n =>
    cases n with
    | zero => simp
    | succ n => simp [List.replicate_succ]

def storingReg : InstanceReg where
  rw reg index newVal opCode := if opCode=1 then (newVal,Function.update reg index newVal) else (reg index,reg)
  read_opcode _ _ _ := if_neg (by decide)
  write_opcode _ _ _ := congrArg Prod.snd (if_pos rfl)

def leaderConfig : Config where
  ctrlInstaneReg := storingReg
  leaderTbl t := if t=2 then .increaseInstance else if t=5 then .resetInstance else .drop
  transportTbl d := if d=1 then none else some (1,0x8889)

def request (paxosval : BitVec 256) : Headers :=
  ⟨⟨0,0⟩,none,some ⟨0,0⟩,none,some ⟨0x8888⟩,some ⟨paxos2A,0,0,0,0,32,paxosval⟩⟩

/-- Two different requests get instance 0. -/
theorem requests_share_instance :
    instances leaderConfig (fun _ => 0) [(request 7,⟨0,0,false⟩),(request 9,⟨0,0,false⟩)]=[0,0] ∧
      ¬ (instances leaderConfig (fun _ => 0)
        [(request 7,⟨0,0,false⟩),(request 9,⟨0,0,false⟩)]).IsChain fun a b => b=a+1 := by
  exact ⟨rfl,by decide⟩
end P4Benchmarks.P4xos.Leader
