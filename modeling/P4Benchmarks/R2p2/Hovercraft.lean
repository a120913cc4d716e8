import P4Benchmarks.R2p2.Message
/-!
# HovercRaft messages on the wire

`send_raft_msg` packs a message into structs with narrow fields, and `raft_process` unpacks it.  The
`ACCELERATED` builds send only the identification of requests.
-/
namespace P4Benchmarks.R2p2
open Lib
/-- A complete request as `handle_request` stores it: packets of one message of
`r2p2_prepare_msg`. -/
structure Request extends R2p2Msg where
  ne_nil : packets≠[]
  magic : ∀ p ∈ packets, p.header.magic=magicByte
  isLast_head : (packets.head ne_nil).header.isLast ↔ packets.length=1
  totalLen_lt : toR2p2Msg.totalLen<2^31
deriving DecidableEq

def Request.prepared (sender : HostTuple) (iovs : List (List Byte)) (hiovs : iovs≠[])
    (policy : Policy) (reqId : BitVec 16)
    (hlen : R2p2Msg.totalLen ⟨sender,reqId,r2p2PrepareMsg iovs .requestMsg policy reqId⟩<2^31) :
    Request where
  sender := sender
  reqId := reqId
  packets := r2p2PrepareMsg iovs .requestMsg policy reqId
  ne_nil := r2p2PrepareMsg_ne_nil iovs _ _ _ hiovs
  magic := by
    intro p hp
    obtain ⟨i,hi,rfl⟩ := List.mem_mapIdx.mp hp
    rfl
  isLast_head := by
    simp only [r2p2PrepareMsg,List.head_mapIdx,isLast_packetHeader,List.length_mapIdx]
    exact eq_comm
  totalLen_lt := hlen

structure EntryHead where
  term : BitVec 64
  (id type : BitVec 32)
  replier : Byte
deriving DecidableEq

structure RaftEntry where
  head : EntryHead
  buf : Option R2p2Msg
  len : Nat
deriving DecidableEq

structure LogEntry where
  head : EntryHead
  request : Request
deriving DecidableEq

def LogEntry.toRaftEntry (e : LogEntry) : RaftEntry where
  head := e.head
  buf := some e.request.toR2p2Msg
  len := e.request.totalLen

structure RequestVote where
  term : Nat
  candidateId : Byte
  (lastLogIdx lastLogTerm : Nat)
deriving DecidableEq

structure RequestVoteResponse where
  term : Nat
  voteGranted : Int
deriving DecidableEq

structure AppendEntries (α : Type) where
  (term prevLogIdx prevLogTerm leaderCommit nEntries : Nat)
  entries : List α
deriving DecidableEq

structure AppendEntriesResponse where
  term : Nat
  success : Int
  (currentIdx firstIdx : Nat)
deriving DecidableEq

/-- The message types of `send_raft_msg`, each with its member of `union generic_raft_msg`. -/
inductive RaftMsg where
  | voteRequest (m : RequestVote)
  | voteReply (m : RequestVoteResponse)
  | appendEntriesReq (m : AppendEntries LogEntry)
  | appendEntriesRep (m : AppendEntriesResponse)
  | announceCommitReq (m : AppendEntries LogEntry)
  | announceCommitRep
  | recoveryReq (m : AppendEntriesResponse)
  | recoveryRep (m : AppendEntries LogEntry)
deriving DecidableEq

def RaftMsg.msgType : RaftMsg → Nat
  | voteRequest _ => 0
  | voteReply _ => 1
  | appendEntriesReq _ => 2
  | appendEntriesRep _ => 3
  | announceCommitReq _ => 5
  | announceCommitRep => 6
  | recoveryReq _ => 7
  | recoveryRep _ => 8

/-- The builds: without options, `ACCELERATED`, and `ACCELERATED` with `SWITCH_AGG`. -/
inductive Build where
  | vanilla
  | accelerated
  | switchAgg
deriving DecidableEq

structure Peer where
  localRaftId : Byte
  done : BitVec 32
  ne_switch : localRaftId≠0xFF
section Send
variable (junk : Nat → Byte)
def unset (start n : Nat) : List Byte := (List.range n).map fun i => junk (start+i)

def EntryHead.bytes (h : EntryHead) : List Byte :=
  leBytes 8 h.term.toNat++(leBytes 4 h.id.toNat++(leBytes 4 h.type.toNat ++ leBytes 1 h.replier.toNat))

def senderRidBytes (m : R2p2Msg) : List Byte :=
  leBytes 4 m.sender.ip.toNat++(leBytes 2 m.sender.port.toNat++leBytes 2 m.reqId.toNat)

def Header.bytes (h : Header) : List Byte :=
  leBytes 1 h.magic.toNat++(leBytes 1 h.headerSize.toNat++(leBytes 1 h.typePolicy.toNat ++
    (leBytes 1 h.flags.toNat++(leBytes 2 h.rid.toNat++leBytes 2 h.pOrder.toNat))))

/-- The memory of a `raft_entry_t`: padding and `data.buf` between the replier and `data.len`. -/
def entryBytes (e : LogEntry) : List Byte :=
  e.head.bytes++(unset junk 0 15++(leBytes 4 e.request.totalLen++unset junk 15 4))

def msgBytes (m : R2p2Msg) : List Byte := senderRidBytes m++unset junk 19 16
def Packet.bytes (p : Packet) : List Byte := p.header.bytes++p.payload

def entryIov (e : LogEntry) : List (List Byte) :=
  entryBytes junk e::msgBytes junk e.request.toR2p2Msg::e.request.packets.map Packet.bytes

def entriesToIov (junk : Nat → Byte) : List LogEntry → List (List Byte)
  | [] => []
  | e::es => entryIov junk e++entriesToIov (fun i => junk (64+i)) es

def entriesToIovAccel (es : List LogEntry) : List (List Byte) :=
  es.flatMap fun e => [e.head.bytes,senderRidBytes e.request.toR2p2Msg]

def genericHeader (msgType : Nat) (fromId : Byte) (term : List Byte) : List Byte :=
  beBytes 1 msgType++(leBytes 1 fromId.toNat++term)

def genericReqHeader (lastLogIdx lastLogTerm : Nat) : List Byte := beBytes 4 lastLogIdx++beBytes 1 lastLogTerm

def appendEntriesReqHeader (leaderCommitIdx entriesCount : Nat) : List Byte :=
  beBytes 4 leaderCommitIdx++beBytes 4 entriesCount

def appendEntriesRepHeader (m : AppendEntriesResponse) (done : List Byte) : List Byte :=
  beBytes 1 (m.success%256).toNat++(beBytes 4 m.currentIdx++(beBytes 4 m.firstIdx++done))

def appendEntriesHeaders (msgType : Nat) (fromId : Byte) (m : AppendEntries LogEntry) : List Byte :=
  genericHeader msgType fromId (beBytes 1 m.term) ++
    (genericReqHeader m.prevLogIdx m.prevLogTerm++appendEntriesReqHeader m.leaderCommit m.nEntries)
variable (build : Build) (self : Peer) (junk : Nat → Byte)
/-- The `iovec`s of a message; `none` where an assertion fails. -/
def raftIov (msg : RaftMsg) : Option (List (List Byte)) :=
  match msg with
  | .voteRequest m =>
    some [genericHeader msg.msgType m.candidateId (beBytes 1 m.term) ++ genericReqHeader m.lastLogIdx m.lastLogTerm]
  | .voteReply m =>
    some [genericHeader msg.msgType self.localRaftId (beBytes 1 m.term) ++ beBytes 1 (m.voteGranted%256).toNat]
  | .appendEntriesReq m =>
    let entries :=
      match build with
      | .vanilla => entriesToIov (fun i => junk (64+i)) m.entries
      | .accelerated | .switchAgg => entriesToIovAccel m.entries
    if entries.length≤2048 then some (appendEntriesHeaders msg.msgType self.localRaftId m::entries)
    else none
  | .appendEntriesRep m =>
    some [genericHeader msg.msgType self.localRaftId (beBytes 1 m.term) ++
      appendEntriesRepHeader m (beBytes 4 self.done.toNat)]
  | .announceCommitReq m => some [appendEntriesHeaders msg.msgType self.localRaftId m]
  | .announceCommitRep =>
    -- neither the term nor the members before `done` are set
    some [genericHeader msg.msgType self.localRaftId (unset junk 0 1) ++
      (unset junk 1 1++(unset junk 2 4++(unset junk 6 4++beBytes 4 self.done.toNat)))]
  | .recoveryReq m =>
    match build with
    | .vanilla => none
    | .accelerated | .switchAgg =>
      some [genericHeader msg.msgType self.localRaftId (beBytes 1 m.term) ++ appendEntriesRepHeader m (unset junk 0 4)]
  | .recoveryRep m =>
    match build with
    | .vanilla => none
    | .accelerated | .switchAgg =>
      some (appendEntriesHeaders msg.msgType self.localRaftId m :: entriesToIov (fun i => junk (64+i)) m.entries)

/-- How a message travels.  A reply to an append-entries request that was kept for later goes
out as a message of its own. -/
def RaftMsg.r2p2Type (pair : Bool) : RaftMsg → MsgType
  | voteRequest _ | appendEntriesReq _ | announceCommitReq _ | recoveryReq _ => .raftReq
  | voteReply _ | announceCommitRep | recoveryRep _ => .raftRep
  | appendEntriesRep _ => if build=.switchAgg ∧ !pair then .raftMsg else .raftRep

def sendRaftMsg (pair : Bool) (rid : BitVec 16) (msg : RaftMsg) : Option (List Packet) := do
  let iov ← raftIov build self junk msg
  some (r2p2PrepareMsg iov (msg.r2p2Type build pair) .fixedRoute rid)
end Send

def readWord (w : Nat) : Parser Reader (BitVec w) := .ofNat w <$> readHost (w/8)

def readEntryHead : Parser Reader EntryHead := do
  let term ← readWord 64
  let id ← readWord 32
  let type ← readWord 32
  let replier ← readWord 8
  pure ⟨term,id,type,replier⟩

def readSenderRid : Parser Reader (HostTuple × BitVec 16) := do
  let ip ← readWord 32
  let port ← readWord 16
  let reqId ← readWord 16
  pure (⟨ip,port⟩,reqId)

def readHeader : Parser Reader Header := do
  let magic ← readWord 8
  let headerSize ← readWord 8
  let typePolicy ← readWord 8
  let flags ← readWord 8
  let rid ← readWord 16
  let pOrder ← readWord 16
  pure ⟨magic,headerSize,typePolicy,flags,rid,pOrder⟩

def readEntry : Parser Reader (EntryHead × Nat) := do
  let head ← readEntryHead
  let _ ← readBytes 15
  let len ← readHost 4
  let _ ← readBytes 4
  pure (head,len)

def readMsg : Parser Reader (HostTuple × BitVec 16) := do
  let senderRid ← readSenderRid
  let _ ← readBytes 16
  pure senderRid

/-- The payload of an entry of length `len`.  A request of several packets fails an assertion. -/
def readRequest (len : Nat) : Parser Reader Packet := do
  let header ← readHeader
  if header.magic≠magicByte then failure
  else if header.isLast then
    let payload ← readUpTo (len-headerBytes)
    pure ⟨header,payload⟩
  else failure

def msgToEntry : Parser Reader RaftEntry := do
  let (head,len) ← readEntry
  let (sender,reqId) ← readMsg
  let packet ← readRequest len
  pure ⟨head,some ⟨sender,reqId,[packet]⟩,len⟩

def msgToEntries : Nat → Parser Reader (List RaftEntry)
  | 0 => pure []
  | count+1 => do
    let e ← msgToEntry
    let es ← msgToEntries count
    pure (e::es)

def findInUnorderedReqs (unordered : List R2p2Msg) (key : HostTuple × BitVec 16) : Option R2p2Msg × List R2p2Msg :=
  (unordered.find? fun m => m.key=key,unordered.filter fun m => m.key≠key)

def msgToEntriesAccel : Nat → List R2p2Msg → Parser Reader (List RaftEntry)
  | 0, _ => pure []
  | count+1, unordered => do
    let head ← readEntryHead
    let key ← readSenderRid
    let (sp,unordered) := findInUnorderedReqs unordered key
    let es ← msgToEntriesAccel count unordered
    pure (⟨head,sp,sp.elim 0 R2p2Msg.totalLen⟩::es)

/-- What `raft_process` does with a message: a call to the Raft library, or what it does
itself. -/
inductive Handed where
  | recvRequestvote (node : Byte) (msg : RequestVote)
  | recvRequestvoteResponse (node : Byte) (msg : RequestVoteResponse)
  | recvAppendentries (node : Byte) (msg : AppendEntries RaftEntry)
  | recvAppendentriesResponse (node : Byte) (msg : AppendEntriesResponse) (peerDone : Nat)
  | setPeerDone (node : Byte) (peerDone : Nat)
  | getEntryFromIdx (idx : Nat)
  | addToUnorderedReqs (requests : List R2p2Msg)
  | switchIsAvailable
deriving DecidableEq

structure Receiver where
  unordered : List R2p2Msg
  currentIdx : Nat

def readGenericReqHeader : Parser Reader (Nat × Nat) := do
  let lastLogIdx ← readNet 4
  let lastLogTerm ← readNet 1
  pure (lastLogIdx,lastLogTerm)

def readAppendEntries {α : Type} (term : Nat) : Parser Reader (AppendEntries α) := do
  let (prevLogIdx,prevLogTerm) ← readGenericReqHeader
  let leaderCommit ← readNet 4
  let nEntries ← readNet 4
  pure ⟨term,prevLogIdx,prevLogTerm,leaderCommit,nEntries,[]⟩

def readAppendEntriesRep (term : Nat) : Parser Reader (AppendEntriesResponse × Nat) := do
  let success ← readNet 1
  let lastLogIdx ← readNet 4
  let firstIdx ← readNet 4
  let done ← readNet 4
  pure (⟨term,success,lastLogIdx,firstIdx⟩,done)
variable (build : Build) (recv : Receiver)
/-- Add the entries, as `process_ae_req_vanilla`, `process_ae_req_accel` and
`process_ae_req_switch_accel` do before they call the library. -/
def processAeReq (m : AppendEntries RaftEntry) : Parser Reader (AppendEntries RaftEntry) :=
  match build with
  | .vanilla => (fun es => { m with entries := es }) <$> msgToEntries m.nEntries
  | .accelerated => (fun es => { m with entries := es }) <$> msgToEntriesAccel m.nEntries recv.unordered
  | .switchAgg =>
    -- the request is kept, and fails without its entries
    if recv.currentIdx < m.prevLogIdx then pure { m with nEntries := 0, entries := [] }
    else (fun es => { m with entries := es }) <$> msgToEntriesAccel m.nEntries recv.unordered

def raftProcessBody (msgType : Nat) (fromId : Byte) (term : Nat) : Parser Reader Handed := do
  match msgType with
  | 0 =>
    let (lastLogIdx,lastLogTerm) ← readGenericReqHeader
    pure (.recvRequestvote fromId ⟨term,fromId,lastLogIdx,lastLogTerm⟩)
  | 1 =>
    if build=.switchAgg ∧ fromId=0xFF then pure .switchIsAvailable
    else
      let granted ← readNet 1
      pure (.recvRequestvoteResponse fromId ⟨term,granted⟩)
  | 2 =>
    let m ← readAppendEntries term
    let m ← processAeReq build recv m
    pure (.recvAppendentries fromId m)
  | 3 =>
    let (m,done) ← readAppendEntriesRep term
    pure (.recvAppendentriesResponse fromId m done)
  | 5 =>
    let m ← readAppendEntries term
    pure (.recvAppendentries fromId m)
  | 6 =>
    let (_,done) ← readAppendEntriesRep term
    pure (.setPeerDone fromId done)
  | 7 =>
    if build=.vanilla then failure
    else
      let (m,_) ← readAppendEntriesRep term
      pure (.getEntryFromIdx (m.currentIdx+1))
  | 8 =>
    if build=.vanilla then failure
    else
      let m : AppendEntries RaftEntry ← readAppendEntries term
      if m.nEntries≠1 then failure
      else
        let e ← msgToEntry
        pure (.addToUnorderedReqs e.buf.toList)
  | _ => failure

def raftProcessMsg : Parser Reader Handed := do
  let msgType ← readNet 1
  let fromId ← readWord 8
  let term ← readNet 1
  raftProcessBody build recv msgType fromId term

def raftProcess (packets : List Packet) : Option Handed :=
  (raftProcessMsg build recv (gbufferReaderInit packets)).map Prod.fst
end P4Benchmarks.R2p2
