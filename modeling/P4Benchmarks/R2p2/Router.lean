import P4Benchmarks.R2p2.Message
/-!
# The flow-control policy of the R2P2 router

`fc_fw_main` forwards requests to the workers with the most free slots.  Finished requests are
counted in `tokens` by another core.
-/
namespace P4Benchmarks.R2p2
open Function
structure Target where
  targetIp : BitVec 32
  targetPort : BitVec 16
deriving DecidableEq

/-- The arguments of the router.  `groups_lt` is that the size of `target_group` is an `int`. -/
structure RouterConfig where
  perQueueSlots : Nat
  targets : List Target
  targets_nodup : targets.Nodup
  slots_lt : perQueueSlots<2^31
  groups_lt : perQueueSlots*targets.length<2^31

def RouterConfig.workerCount (cfg : RouterConfig) : Nat := cfg.targets.length

/-- Where the loop of `fc_fw_main` is: in `net_poll`, reading the slots of worker `i`, sending
fixed-route requests, forwarding to idle workers, or forwarding to the workers of group `i`. -/
inductive RouterPc where
  | poll
  | refresh (i : Nat)
  | direct
  | idle
  | avail (i : Nat)
deriving DecidableEq

/-- The last three fields are not variables of the program: the requests that worker `i` has not
finished, and for worker `i` what `tokens[i] - sent[i]` was when it was last read and how many
requests were sent to it since. -/
structure Router (ρ : Type) where
  (tokens sent : Nat → BitVec 64)
  (pendingRouted pendingDirect : List ρ)
  (targetGroup targetGroupCount groupIdx : Nat → Nat)
  (availSlots idleSlots : Int)
  pc : RouterPc
  outstanding : Nat → Nat
  snapshot : Nat → Int
  sentSince : Nat → Nat

def bufferCntThres : Nat := 2
namespace Router
variable {ρ : Type} (cfg : RouterConfig)
def init : Router ρ where
  tokens := fun _ => .ofNat 64 cfg.perQueueSlots
  sent := fun _ => 0
  pendingRouted := []
  pendingDirect := []
  targetGroup := fun _ => 0
  targetGroupCount := fun _ => 0
  groupIdx := fun _ => 0
  availSlots := 0
  idleSlots := 0
  pc := .poll
  outstanding := fun _ => 0
  snapshot := fun _ => 0
  sentSince := fun _ => 0
variable (s : Router ρ)
/-- The free slots of worker `w`: those of the last snapshot minus the requests sent since. -/
def free (w : Nat) : Int := s.snapshot w-s.sentSince w

def updateTokens (src : Target) : Router ρ :=
  { s with
    tokens := update s.tokens (cfg.targets.findIdx (·==src)) (s.tokens (cfg.targets.findIdx (·==src))+1) }

/-- `none` is a failed assertion. -/
def fcFwIn (policy : Policy) (request : ρ) : Option (Router ρ) :=
  match policy with
  | .lbRoute => some { s with pendingRouted := s.pendingRouted++[request] }
  | .fixedRoute => some { s with pendingDirect := s.pendingDirect++[request] }
  | _ => none

def sendToWorker (w : Nat) : Router ρ :=
  { s with
    sent := update s.sent w (s.sent w+1)
    outstanding := update s.outstanding w (s.outstanding w+1)
    sentSince := update s.sentSince w (s.sentSince w+1) }

def needsSlots : Bool := s.availSlots=0 ∨ (s.idleSlots=0 ∧ s.pendingRouted.length<bufferCntThres)

def clearGroups : Router ρ :=
  { s with
    targetGroupCount := fun _ => 0
    groupIdx := fun _ => 0
    availSlots := 0
    idleSlots := 0
    snapshot := fun _ => 0
    sentSince := fun _ => 0
    pc := .refresh 0 }
variable (i : Nat)
def availOf : Int := ((s.tokens i-s.sent i).setWidth 32).toInt

def addToGroup (i w : Nat) : Router ρ :=
  { s with
    targetGroup := update s.targetGroup (i*cfg.workerCount+s.targetGroupCount i) w
    targetGroupCount := update s.targetGroupCount i (s.targetGroupCount i+1) }

def readSlots : Router ρ :=
  if s.availOf i<1 then { s with snapshot := update s.snapshot i (s.availOf i) }
  else
    { s.addToGroup cfg (s.availOf i-1).toNat i with
      availSlots := s.availSlots+s.availOf i
      idleSlots := if s.availOf i=cfg.perQueueSlots then s.idleSlots+1 else s.idleSlots
      snapshot := update s.snapshot i (s.availOf i) }

def canForward : Bool := s.pendingRouted≠[] ∧ s.groupIdx i < s.targetGroupCount i
def nextOfGroup : Nat := s.targetGroup (i*cfg.workerCount+s.groupIdx i)

/-- The first queued request goes to the next worker of group `i`, which then joins the next group. -/
def forward : Router ρ :=
  let w := s.nextOfGroup cfg i
  let taken := { s.sendToWorker w with
    pendingRouted := s.pendingRouted.tail
    groupIdx := update s.groupIdx i (s.groupIdx i+1)
    availSlots := s.availSlots-1 }
  if i > 0 then taken.addToGroup cfg (i-1) w else taken

def afterDirect : RouterPc :=
  if s.idleSlots≠0 then .idle
  else if s.availSlots≠0 ∧ 2 ≤ cfg.perQueueSlots then .avail (cfg.perQueueSlots-2)
  else .poll

def fcFwMain : Router ρ :=
  match s.pc with
  | .poll => if s.needsSlots then s.clearGroups else { s with pc := .direct }
  | .refresh i =>
    if i < cfg.workerCount then { s.readSlots cfg i with pc := .refresh (i+1) }
    else { s with pc := .direct }
  | .direct =>
    if s.pendingDirect=[] then { s with pc := s.afterDirect cfg }
    else { s.sendToWorker 0 with pendingDirect := s.pendingDirect.tail }
  | .idle =>
    if s.canForward (cfg.perQueueSlots-1) then
      { s.forward cfg (cfg.perQueueSlots-1) with idleSlots := s.idleSlots-1 }
    else { s with pc := .poll }
  | .avail i =>
    if s.canForward i then s.forward cfg i
    else if s.pendingRouted=[] ∨ i=0 then { s with pc := .poll }
    else { s with pc := .avail (i-1) }
end Router

inductive RouterEvent (ρ : Type) where
  | arrive (policy : Policy) (request : ρ)
  | feedback (i : Nat)
  | run
deriving DecidableEq
namespace Router
variable {ρ : Type} (cfg : RouterConfig) (s : Router ρ)
def step : RouterEvent ρ → Option (Router ρ)
  | .arrive policy request => if s.pc=.poll then s.fcFwIn policy request else none
  | .feedback i =>
    match cfg.targets[i]? with
    | some src =>
      if s.outstanding i=0 then none
      else some { s.updateTokens cfg src with
        outstanding := update s.outstanding i (s.outstanding i-1) }
    | none => none
  | .run => some (s.fcFwMain cfg)

def forwardsFrom : Option Nat :=
  match s.pc with
  | .idle => if s.canForward (cfg.perQueueSlots-1) then some (cfg.perQueueSlots-1) else none
  | .avail i => if s.canForward i then some i else none
  | _ => none
end Router
end P4Benchmarks.R2p2
