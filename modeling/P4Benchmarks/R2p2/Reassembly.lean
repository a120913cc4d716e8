import P4Benchmarks.Lib.Execution
import P4Benchmarks.R2p2.Message
/-!
# Reassembly of R2P2 messages

`handle_incoming_pck` collects requests in server pairs, found by sender and request id, and
responses in client pairs, found by port and request id.
-/
namespace P4Benchmarks.R2p2
open Lib MsgType List
section OnFirst
variable {α β : Type} (match? : α → Bool) (f : α → Option (Option α × β)) (absent : β)
/-- Change or remove the first matching element; `f` may fail an assertion. -/
def onFirst : List α → Option (List α × β)
  | [] => some ([],absent)
  | a::as =>
    if match? a then (f a).map fun r => (r.1.toList++as,r.2)
    else (onFirst as).map fun r => (a::r.1,r.2)
variable {match? f absent}

theorem onFirst_eq_some {as as' : List α} {b : β} (h : onFirst match? f absent as = some (as',b)) :
    (as.find? match? = none ∧ as' = as ∧ b = absent) ∨
      ∃ front a back a', as = front++a::back ∧ (∀ x ∈ front, match? x = false) ∧ match? a ∧
        f a = some (a',b) ∧ as' = front++(a'.toList++back) := by
  induction as generalizing as' with
  | nil =>
    cases h
    exact .inl ⟨rfl,rfl,rfl⟩
  | cons a as ih =>
    by_cases ha : match? a
    · rw [onFirst,if_pos ha,Option.map_eq_some_iff] at h
      obtain ⟨⟨a',b'⟩,hf,heq⟩ := h
      cases heq
      exact .inr ⟨[],a,as,a',rfl,nofun,ha,hf,rfl⟩
    · rw [onFirst,if_neg ha,Option.map_eq_some_iff] at h
      obtain ⟨⟨rest,b'⟩,hrest,heq⟩ := h
      cases heq
      rw [List.find?_cons_of_neg ha]
      rcases ih hrest with ⟨hnone,rfl,rfl⟩ | ⟨front,x,back,x',rfl,hfront,hx,hf,rfl⟩
      · exact .inl ⟨hnone,rfl,rfl⟩
      · refine .inr ⟨a::front,x,back,x',rfl,?_,hx,hf,rfl⟩
        exact forall_mem_cons.mpr ⟨Bool.not_eq_true _ ▸ ha,hfront⟩
end OnFirst

structure ServerPair where
  request : R2p2Msg
  (requestExpectedPackets requestReceivedPackets : BitVec 16)
deriving DecidableEq

inductive ClientState where
  | wAck
  | wResponse
deriving DecidableEq

structure ClientPair where
  (port reqId : BitVec 16)
  reply : List Packet
  (replyExpectedPackets replyReceivedPackets : BitVec 16)
  state : ClientState
deriving DecidableEq

def ServerPair.isFor (reqId : BitVec 16) (sender : HostTuple) (sp : ServerPair) : Bool :=
  sp.request.sender.ip=sender.ip ∧ sp.request.sender.port=sender.port ∧ sp.request.reqId=reqId

def ClientPair.isFor (reqId : BitVec 16) (port : BitVec 16) (cp : ClientPair) : Bool :=
  cp.port=port ∧ cp.reqId=reqId

def findInPendingServerPairs (sps : List ServerPair) (reqId : BitVec 16) (sender : HostTuple) : Option ServerPair :=
  sps.find? (ServerPair.isFor reqId sender)

def findInPendingClientPairs (cps : List ClientPair) (reqId : BitVec 16) (port : BitVec 16) : Option ClientPair :=
  cps.find? (ClientPair.isFor reqId port)

/-- The check of the last packet.  The pair waits for more, is given up, or has a complete
request. -/
def ServerPair.complete (sp : ServerPair) (p : Packet) : Option ServerPair × Option R2p2Msg :=
  if !p.header.isLast then (some sp,none)
  else if sp.requestReceivedPackets≠sp.requestExpectedPackets then (none,none)
  else (none,some sp.request)

def ServerPair.start (p : Packet) (source : HostTuple) : ServerPair where
  request := ⟨source,p.header.rid,[p]⟩
  requestExpectedPackets := p.header.pOrder
  requestReceivedPackets := 1

def ServerPair.addPacket (sp : ServerPair) (p : Packet) : Option ServerPair × Option R2p2Msg :=
  if p.header.pOrder≠sp.requestReceivedPackets then (none,none)
  else
    ServerPair.complete
      { sp with
        request := { sp.request with packets := sp.request.packets++[p] }
        requestReceivedPackets := sp.requestReceivedPackets+1 } p

/-- `shouldKeepReq` is the answer of the application's flow control.  A first packet starts a new
pair, also when there is one for its sender and id. -/
def handleRequest (shouldKeepReq : Bool) (sps : List ServerPair) (p : Packet)
    (source : HostTuple) : Option (List ServerPair × Option R2p2Msg) :=
  if p.header.isFirst then
    if p.header.getMsgType=requestMsg.code ∧ !shouldKeepReq then some (sps,none)
    else
      let (sp,request) := (ServerPair.start p source).complete p
      some (sps++sp.toList,request)
  else onFirst (ServerPair.isFor p.header.rid source) (fun sp => some (sp.addPacket p)) none sps

def ClientPair.complete (cp : ClientPair) (p : Packet) : Option ClientPair × Option (List Packet) :=
  if !p.header.isLast then (some cp,none)
  else if cp.replyReceivedPackets≠cp.replyExpectedPackets then (none,none)
  else (some cp,some cp.reply)

def ClientPair.addPacket (cp : ClientPair) (p : Packet) : Option ClientPair × Option (List Packet) :=
  let reply := cp.reply++[p]
  if p.header.isFirst then
    ClientPair.complete
      { cp with reply := reply, replyExpectedPackets := p.header.pOrder, replyReceivedPackets := 1 } p
  else if p.header.pOrder≠cp.replyReceivedPackets then (none,none)
  else
    ClientPair.complete
      { cp with reply := reply, replyReceivedPackets := cp.replyReceivedPackets+1 } p
variable (withRaft : Bool)
def ClientPair.handle (p : Packet) (cp : ClientPair) : Option (Option ClientPair × Option (List Packet)) :=
  if p.header.getMsgType=raftRep.code ∧ !withRaft then none
  else if p.header.getMsgType=raftRep.code ∨ p.header.getMsgType=responseMsg.code then
    if cp.state=.wResponse then some (cp.addPacket p) else none
  else if p.header.getMsgType=ackMsg.code then
    if cp.state=.wAck ∧ p.size=headerBytes+3 then some (some { cp with state := .wResponse },none)
    else none
  else if p.header.getMsgType=dropMsg.code then some (none,none)
  else none

def handleResponse (cps : List ClientPair) (p : Packet) (localPort : BitVec 16) :
    Option (List ClientPair × Option (List Packet)) :=
  onFirst (ClientPair.isFor p.header.rid localPort) (ClientPair.handle withRaft p) none cps
variable (h : Header)
def Header.isResponse : Bool :=
  h.getMsgType=responseMsg.code ∨ h.getMsgType=ackMsg.code ∨ h.getMsgType=dropMsg.code ∨ h.getMsgType=raftRep.code

def Header.isRaftSingleMsg : Bool := h.getMsgType=raftMsg.code
def Header.isRaftMsg : Bool := h.getMsgType=raftReq.code ∨ h.getMsgType=raftRep.code ∨ h.getMsgType=raftMsg.code

def Header.isReplicatedReq : Bool :=
  h.getPolicy=Policy.replicatedRoute.code ∨ h.getPolicy=Policy.replicatedRouteNoSe.code

def prepareToAppIovec (packets : List Packet) : Option (List (List Byte)) :=
  if packets≠[] ∧ packets.length<0xFF then some (packets.map Packet.payload) else none

/-- What the application is given; for the handles, which are pointers to the pairs, the sender of
the request and what the client pair is found by. -/
inductive Delivery where
  | forwardRequest (sender : HostTuple) (iov : List (List Byte))
  | successCb (port reqId : BitVec 16) (iov : List (List Byte))
  | raftProcess (msg : R2p2Msg)
  | handleReplicatedReq (msg : R2p2Msg)
deriving DecidableEq

def deliverRequest (p : Packet) (msg : R2p2Msg) : Option Delivery :=
  if p.header.isRaftMsg then if withRaft then some (.raftProcess msg) else none
  else if p.header.isReplicatedReq then if withRaft then some (.handleReplicatedReq msg) else none
  else (prepareToAppIovec msg.packets).map (.forwardRequest msg.sender)

structure Host where
  serverPairs : List ServerPair
  clientPairs : List ClientPair
  rid : BitVec 16
deriving DecidableEq

def Host.init : Host := ⟨[],[],0⟩

/-- A packet from `source` to `localPort`.  Single Raft messages are not reassembled. -/
def handleIncomingPck (withRaft shouldKeepReq : Bool) (h : Host) (p : Packet)
    (source : HostTuple) (localPort : BitVec 16) : Option (Host × List Delivery) :=
  if p.header.isRaftSingleMsg then if withRaft then some (h,[]) else none
  else if p.header.isResponse then do
    let (cps,reply) ← handleResponse withRaft h.clientPairs p localPort
    match reply with
    | none => some ({ h with clientPairs := cps },[])
    | some packets =>
      let iov ← prepareToAppIovec packets
      some ({ h with clientPairs := cps },[.successCb localPort p.header.rid iov])
  else do
    let (sps,request) ← handleRequest shouldKeepReq h.serverPairs p source
    match request with
    | none => some ({ h with serverPairs := sps },[])
    | some msg =>
      let d ← deliverRequest withRaft p msg
      some ({ h with serverPairs := sps },[d])
end P4Benchmarks.R2p2
