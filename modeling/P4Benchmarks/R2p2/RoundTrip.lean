import P4Benchmarks.R2p2.Fragmentation
import P4Benchmarks.R2p2.Integrity
/-! # Round trip of a message -/
namespace P4Benchmarks.R2p2
open Lib List Message ServerPair
attribute [local simp] packetHeader replicate_succ
def handleRequests (shouldKeepReq : Bool) (source : HostTuple) (sps : List ServerPair) :
    List Packet → Option (List ServerPair × List (Option R2p2Msg))
  | [] => some (sps,[])
  | p::ps => do
    let (sps,request) ← handleRequest shouldKeepReq sps p source
    let (sps,requests) ← handleRequests shouldKeepReq source sps ps
    return (sps,request::requests)

def handleResponses (withRaft : Bool) (localPort : BitVec 16) (cps : List ClientPair) :
    List Packet → Option (List ClientPair × List (Option (List Packet)))
  | [] => some (cps,[])
  | p::ps => do
    let (cps,reply) ← handleResponse withRaft cps p localPort
    let (cps,replies) ← handleResponses withRaft localPort cps ps
    return (cps,reply::replies)

theorem onFirst_append {α β : Type} {match? : α → Bool} {f : α → Option (Option α × β)} {absent : β}
    {as bs : List α} (h : ∀ a ∈ as, match? a=false) :
    onFirst match? f absent (as++bs) =
      (onFirst match? f absent bs).map fun r => (as++r.1,r.2) := by
  induction as with
  | nil => simp
  | cons a as ih =>
    have ha : match? a=false := h a mem_cons_self
    rw [cons_append,onFirst,if_neg (by simp [ha]),ih fun b hb => h b (mem_cons_of_mem a hb),Option.map_map]
    rfl
section Message
variable {m : Message} {pre : List Packet} {p : Packet} {ps : List Packet}
theorem Message.getElem?_of_split (h : m.packets=pre++p::ps) : m.packets[pre.length]?=some p := by
  rw [h,List.getElem?_append_right (Nat.le_refl _),Nat.sub_self,List.getElem?_cons_zero]

theorem Message.pOrder_of_split (h : m.packets=pre++p::ps) (hpre : pre≠[]) : p.header.pOrder=.ofNat 16 pre.length := by
  have hlen : pre.length≠0 := by simpa using hpre
  rw [header_eq (getElem?_of_split h)]
  simp [hlen]

theorem Message.isLast_of_split (h : m.packets=pre++p::ps) : p.header.isLast ↔ ps=[] := by
  rw [isLast_iff (getElem?_of_split h),h]
  simp

def Message.serverPair (m : Message) (pre : List Packet) : ServerPair where
  request := ⟨m.source,m.rid,pre⟩
  requestExpectedPackets := .ofNat 16 m.packets.length
  requestReceivedPackets := .ofNat 16 pre.length

def Message.request (m : Message) : R2p2Msg := ⟨m.source,m.rid,m.packets⟩

theorem Message.serverPair_complete (h : m.packets=pre++p::ps) : (m.serverPair (pre++[p])).complete p =
      if ps=[] then (none,some m.request) else (some (m.serverPair (pre++[p])),none) := by
  have hlast := isLast_of_split h
  by_cases hps : ps=[]
  · subst hps
    simp [complete,hlast,serverPair,request,h]
  · rw [if_neg hps,complete,if_pos]
    simpa [hps] using hlast

theorem Message.serverPair_addPacket (h : m.packets=pre++p::ps) (hpre : pre≠[]) : (m.serverPair pre).addPacket p =
      if ps=[] then (none,some m.request) else (some (m.serverPair (pre++[p])),none) := by
  rw [← serverPair_complete h,addPacket,if_neg]
  · simp [serverPair,BitVec.ofNat_add]
  · simp [serverPair,pOrder_of_split h hpre]
variable {shouldKeepReq : Bool} {sps : List ServerPair}
theorem Message.handleRequest_first (h : m.packets=p::ps) (hkeep : m.type=.requestMsg → shouldKeepReq) :
    handleRequest shouldKeepReq sps p m.source =
      some (if ps=[] then (sps,some m.request) else (sps++[m.serverPair [p]],none)) := by
  have hp : m.packets[0]?=some p := by rw [h,List.getElem?_cons_zero]
  have hfirst : p.header.isFirst := (isFirst_iff hp).mpr rfl
  have hkept : ¬(p.header.getMsgType=MsgType.requestMsg.code ∧ (!shouldKeepReq)) := by
    rintro ⟨htype,hdrop⟩
    rw [getMsgType_eq hp] at htype
    have hrequest : m.type=.requestMsg := by cases hm : m.type <;> rw [hm] at htype <;> first | rfl | cases htype
    simp [hkeep hrequest] at hdrop
  have hstart : start p m.source=m.serverPair [p] := by simp [start,serverPair,header_eq hp]
  rw [handleRequest,if_pos hfirst,if_neg hkept,hstart]
  have hcomplete := @serverPair_complete m [] p ps h
  rw [nil_append] at hcomplete
  rw [hcomplete]
  split_ifs <;> simp

theorem Message.handleRequest_next (h : m.packets=pre++p::ps) (hpre : pre≠[])
    (hsps : ∀ sp ∈ sps, sp.isFor m.rid m.source=false) :
    handleRequest shouldKeepReq (sps++[m.serverPair pre]) p m.source = some (if ps=[] then (sps,some m.request)
        else (sps++[m.serverPair (pre++[p])],none)) := by
  have hp := getElem?_of_split h
  have hlen : pre.length≠0 := by simpa using hpre
  have hfirst : ¬p.header.isFirst := mt (isFirst_iff hp).mp hlen
  have hfor : (m.serverPair pre).isFor m.rid m.source := by simp [isFor,serverPair]
  rw [handleRequest,if_neg hfirst,rid_eq hp,onFirst_append hsps,onFirst,if_pos hfor,serverPair_addPacket h hpre]
  split_ifs <;> simp

theorem Message.handleRequests_rest (h : m.packets=pre++p::ps) (hpre : pre≠[])
    (hsps : ∀ sp ∈ sps, sp.isFor m.rid m.source=false) :
    handleRequests shouldKeepReq m.source (sps++[m.serverPair pre]) (p::ps) =
      some (sps,List.replicate ps.length none++[some m.request]) := by
  induction ps generalizing pre p with
  | nil => simp [handleRequests,handleRequest_next h hpre hsps]
  | cons q ps ih =>
    have hnext := @ih (pre++[p]) q (by simpa using h) (by simp)
    rw [handleRequests,handleRequest_next h hpre hsps,if_neg (cons_ne_nil q ps)]
    simp [hnext]

theorem Message.handleRequests_packets (m : Message) (hkeep : m.type=.requestMsg → shouldKeepReq)
    (hsps : ∀ sp ∈ sps, sp.isFor m.rid m.source=false) :
    handleRequests shouldKeepReq m.source sps m.packets =
      some (sps,List.replicate (m.packets.length-1) none++[some m.request]) := by
  have hne : m.packets≠[] := r2p2PrepareMsg_ne_nil _ _ _ _ m.ne_nil
  obtain ⟨p,ps,hpackets⟩ := exists_cons_of_ne_nil hne
  rw [hpackets,handleRequests,handleRequest_first hpackets hkeep]
  cases ps with
  | nil => simp [handleRequests]
  | cons q ps =>
    have hrest := @handleRequests_rest m [p] q ps shouldKeepReq sps hpackets (cons_ne_nil p []) hsps
    simp [hrest]

def Message.clientPair (m : Message) (cp : ClientPair) (pre : List Packet) : ClientPair :=
  { cp with
    reply := pre
    replyExpectedPackets := .ofNat 16 m.packets.length
    replyReceivedPackets := .ofNat 16 pre.length }
variable {withRaft : Bool} {cp : ClientPair} {front back : List ClientPair}
theorem Message.clientPair_complete (h : m.packets=pre++p::ps) : (m.clientPair cp (pre++[p])).complete p =
      (some (m.clientPair cp (pre++[p])),if ps=[] then some m.packets else none) := by
  have hlast := isLast_of_split h
  by_cases hps : ps=[]
  · subst hps
    simp [ClientPair.complete,hlast,clientPair,h]
  · rw [if_neg hps,ClientPair.complete,if_pos]
    simpa [hps] using hlast

theorem Message.clientPair_first (h : m.packets=p::ps) (hreply : cp.reply=[]) :
    cp.addPacket p=(some (m.clientPair cp [p]),if ps=[] then some m.packets else none) := by
  have hp : m.packets[0]?=some p := by rw [h,List.getElem?_cons_zero]
  have hfirst : p.header.isFirst := (isFirst_iff hp).mpr rfl
  have hcomplete := @clientPair_complete m [] p ps cp h
  rw [nil_append] at hcomplete
  rw [← hcomplete,ClientPair.addPacket,if_pos hfirst,hreply]
  simp [clientPair,header_eq hp]

theorem Message.clientPair_next (h : m.packets=pre++p::ps) (hpre : pre≠[]) : (m.clientPair cp pre).addPacket p =
      (some (m.clientPair cp (pre++[p])),if ps=[] then some m.packets else none) := by
  have hlen : pre.length≠0 := by simpa using hpre
  have hfirst : ¬p.header.isFirst := mt (isFirst_iff (getElem?_of_split h)).mp hlen
  rw [← clientPair_complete h,ClientPair.addPacket,if_neg hfirst,if_neg]
  · simp [clientPair,BitVec.ofNat_add]
  · simp [clientPair,pOrder_of_split h hpre]

structure Message.Awaited (m : Message) (withRaft : Bool) (front : List ClientPair) (cp : ClientPair) : Prop where
  type : m.type=.responseMsg ∨ m.type=.raftRep ∧ withRaft
  others : ∀ cp ∈ front, cp.isFor m.rid m.port=false
  own : cp.isFor m.rid m.port
  state : cp.state=.wResponse

theorem Message.handleResponse_eq {i : Nat} (hp : m.packets[i]?=some p)
    (hcp : m.Awaited withRaft front cp) (back : List ClientPair) :
    handleResponse withRaft (front++cp::back) p m.port =
      some (front++((cp.addPacket p).1.toList++back),(cp.addPacket p).2) := by
  have hhandle : cp.handle withRaft p=some (cp.addPacket p) := by
    rw [ClientPair.handle,getMsgType_eq hp]
    rcases hcp.type with htype | ⟨htype,rfl⟩
    · rw [htype,if_neg (by simp [MsgType.code]),if_pos (by decide),if_pos hcp.state]
    · rw [htype,if_neg (by decide),if_pos (by decide),if_pos hcp.state]
  rw [handleResponse,rid_eq hp,onFirst_append hcp.others,onFirst,if_pos hcp.own,hhandle]
  rfl

theorem Message.handleResponse_next (h : m.packets=pre++p::ps) (hpre : pre≠[])
    (hcp : m.Awaited withRaft front cp) (back : List ClientPair) :
    handleResponse withRaft (front++m.clientPair cp pre::back) p m.port =
      some (front++m.clientPair cp (pre++[p])::back,if ps=[] then some m.packets else none) := by
  have hcp' : m.Awaited withRaft front (m.clientPair cp pre) := ⟨hcp.type,hcp.others,hcp.own,hcp.state⟩
  rw [handleResponse_eq (getElem?_of_split h) hcp' back,clientPair_next h hpre]
  rfl

theorem Message.handleResponses_rest (h : m.packets=pre++p::ps) (hpre : pre≠[]) (hcp : m.Awaited withRaft front cp)
    (back : List ClientPair) :
    handleResponses withRaft m.port (front++m.clientPair cp pre::back)
    (p::ps) = some (front++m.clientPair cp m.packets::back, List.replicate ps.length none++[some m.packets]) := by
  induction ps generalizing pre p with
  | nil => simp [handleResponses,handleResponse_next h hpre hcp back,h]
  | cons q ps ih =>
    have hnext := @ih (pre++[p]) q (by simpa using h) (by simp)
    rw [handleResponses,handleResponse_next h hpre hcp back]
    simp [hnext]

theorem Message.handleResponses_packets (hcp : m.Awaited withRaft front cp) (hreply : cp.reply=[])
    (back : List ClientPair) :
    handleResponses withRaft m.port (front++cp::back) m.packets = some (front++m.clientPair cp m.packets::back,
        List.replicate (m.packets.length-1) none++[some m.packets]) := by
  have hne : m.packets≠[] := r2p2PrepareMsg_ne_nil _ _ _ _ m.ne_nil
  obtain ⟨p,ps,hpackets⟩ := exists_cons_of_ne_nil hne
  have hp : m.packets[0]?=some p := by rw [hpackets,List.getElem?_cons_zero]
  rw [hpackets,handleResponses,handleResponse_eq hp hcp back,clientPair_first hpackets hreply]
  cases ps with
  | nil => simp [handleResponses,hpackets]
  | cons q ps =>
    have hrest := @handleResponses_rest m [p] q ps withRaft cp front hpackets (cons_ne_nil p []) hcp back
    simp [hrest,hpackets]
end Message

theorem getPolicy_packetHeader (reqType : MsgType) (policy : Policy) (reqId : BitVec 16) (n i : Nat) :
    (packetHeader reqType policy reqId n i).getPolicy=policy.code := by
  show (reqType.code<<<4|||(0x0F&&&policy.code))&&&0xF=policy.code
  cases reqType <;> cases policy <;> decide

def IsPlain (reqType : MsgType) (policy : Policy) : Prop :=
  (reqType≠.raftReq ∧ reqType≠.raftRep ∧ reqType≠.raftMsg) ∧ policy≠.replicatedRoute ∧ policy≠.replicatedRouteNoSe

theorem Message.deliverRequest_eq {m : Message} (hplain : IsPlain m.type m.policy) {p : Packet}
    (hp : p ∈ m.packets) (withRaft : Bool) (msg : R2p2Msg) :
    deliverRequest withRaft p msg=(prepareToAppIovec msg.packets).map (.forwardRequest msg.sender) := by
  obtain ⟨⟨hreq,hrep,hmsg⟩,hroute,hnose⟩ := hplain
  obtain ⟨i,hi⟩ := List.getElem?_of_mem hp
  have hraft : ¬p.header.isRaftMsg := by
    rw [Header.isRaftMsg,getMsgType_eq hi]
    cases htype : m.type <;> simp_all [MsgType.code]
  have hreplicated : ¬p.header.isReplicatedReq := by
    rw [Header.isReplicatedReq,header_eq hi,getPolicy_packetHeader]
    cases hpolicy : m.policy <;> simp_all [Policy.code]
  rw [deliverRequest,if_neg hraft,if_neg hreplicated]

def Marked (packets : List Packet) : Prop :=
  ∀ i p, packets[i]?=some p → (p.header.isFirst ↔ i=0) ∧ (p.header.isLast ↔ i+1=packets.length) ∧
      (p.header.pOrder.toNat=packets.length ↔ i=0) ∧ (i≠0 → p.header.pOrder.toNat=i)

theorem Message.marked (m : Message) (hlength : m.packets.length<255) : Marked m.packets := by
  intro i p hp
  obtain ⟨hi,-⟩ := List.getElem?_eq_some_iff.mp hp
  refine ⟨isFirst_iff hp,isLast_iff hp,?_⟩
  rw [header_eq hp]
  by_cases h0 : i=0
  · simp [h0]
    omega
  · simp [h0]
    omega

/-- The packets that `r2p2_prepare_msg` makes are put together again with their last one, by
`handle_request` and by `handle_response`. -/
theorem message_roundTrip {iovs : List (List Byte)} (hne : iovs≠[]) (reqType : MsgType)
    (policy : Policy) (reqId : BitVec 16) :
    ∃ packets, prepareMsgLoop iovs reqType policy reqId=some packets ∧ (packets.length<255 → Marked packets ∧
        ∃ iov, prepareToAppIovec packets=some iov ∧ iov.flatten=iovs.flatten ∧
        (∀ shouldKeepReq source sps, (reqType=.requestMsg → shouldKeepReq=true) →
          (∀ sp ∈ sps, sp.isFor reqId source=false) →
          handleRequests shouldKeepReq source sps packets =
              some (sps,List.replicate (packets.length-1) none ++ [some ⟨source,reqId,packets⟩]) ∧
            (IsPlain reqType policy → ∀ withRaft, ∀ p ∈ packets,
              deliverRequest withRaft p ⟨source,reqId,packets⟩=some (.forwardRequest source iov))) ∧
        ∀ withRaft port cps cp, (reqType=.responseMsg ∨ reqType=.raftRep ∧ withRaft=true) →
          findInPendingClientPairs cps reqId port=some cp → cp.state=.wResponse →
          cp.reply=[] →
          ∃ cps', handleResponses withRaft port cps packets =
            some (cps',List.replicate (packets.length-1) none++[some packets])) := by
  refine ⟨_,prepareMsgLoop_eq hne reqType policy reqId,fun hlength => ?_⟩
  have happ : prepareToAppIovec (r2p2PrepareMsg iovs reqType policy reqId) =
      some ((r2p2PrepareMsg iovs reqType policy reqId).map Packet.payload) := by
    rw [prepareToAppIovec,if_pos ⟨r2p2PrepareMsg_ne_nil _ _ _ _ hne,hlength⟩]
  refine ⟨?_,_,happ,flatten_r2p2PrepareMsg ..,?_,?_⟩
  · exact marked ⟨iovs,hne,reqType,policy,reqId,⟨0,0⟩,0⟩ hlength
  · intro shouldKeepReq source sps hkeep hsps
    let m : Message := ⟨iovs,hne,reqType,policy,reqId,source,0⟩
    refine ⟨m.handleRequests_packets hkeep hsps,fun hplain withRaft p hp => ?_⟩
    rw [deliverRequest_eq (m := m) hplain hp,happ,Option.map_some]
  · intro withRaft port cps cp htype hfind hstate hreply
    let m : Message := ⟨iovs,hne,reqType,policy,reqId,⟨0,0⟩,port⟩
    obtain ⟨hown,front,back,rfl,hfront⟩ := List.find?_eq_some_iff_append.mp hfind
    have hcp : m.Awaited withRaft front cp := ⟨htype,by simpa using hfront,hown,hstate⟩
    exact ⟨_,handleResponses_packets hcp hreply back⟩

private theorem length_twoPackets {b c : Byte} {m n : Nat} {small : Bool} {reqType : MsgType}
    (hsmall : decide (¬m+n ≤ payloadSize ∧ reqType = .requestMsg) = small) (hm : m = bufferRoom small 0)
    (hn : 0 < n ∧ n ≤ payloadSize) {packets : List Packet}
    (h : prepareMsgLoop [replicate m b++replicate n c] reqType .lbRoute 3 = some packets) : packets.length = 2 := by
  have hfill : fillBuffers small [replicate m b++replicate n c] = [replicate m b,replicate n c] :=
    fillBuffers_two (by rw [length_replicate,hm]) (ne_nil_of_length_pos (by rw [length_replicate]; exact hn.1))
      (by rw [length_replicate]; exact hn.2)
  rw [prepareMsgLoop_eq (cons_ne_nil _ _),Option.some.injEq] at h
  rw [← h,@r2p2PrepareMsg_eq _ [replicate m b,replicate n c]]
  · rfl
  · rwa [flatten_singleton,length_append,length_replicate,length_replicate,hsmall]

private def pendingPairs : List ClientPair := [⟨8000,2,[],0,0,.wResponse⟩,⟨8000,3,[],0,0,.wResponse⟩]

/-- A request and a response of two packets each; another response is awaited as well. -/
theorem twoPackets_roundTrip :
    (∃ packets iov, prepareMsgLoop [replicate 14 7++replicate 1451 7] .requestMsg .lbRoute 3 = some packets ∧
      packets.length = 2 ∧ iov.flatten = replicate 14 7++replicate 1451 7 ∧
      handleRequests true ⟨1,2⟩ [] packets = some ([],[none,some ⟨⟨1,2⟩,3,packets⟩]) ∧
      ∀ p ∈ packets, deliverRequest false p ⟨⟨1,2⟩,3,packets⟩ = some (.forwardRequest ⟨1,2⟩ iov)) ∧
    ∃ packets cps, prepareMsgLoop [replicate 1464 7++replicate 1 8] .responseMsg .lbRoute 3 = some packets ∧
      packets.length = 2 ∧ handleResponses false 8000 pendingPairs packets = some (cps,[none,some packets]) := by
  constructor
  · obtain ⟨packets,hpackets,htrip⟩ :=
      message_roundTrip (cons_ne_nil (replicate 14 (7 : Byte)++replicate 1451 7) []) .requestMsg .lbRoute 3
    have hlength := length_twoPackets rfl rfl (by decide) hpackets
    obtain ⟨-,iov,-,hflatten,hrequest,-⟩ := htrip (by omega)
    obtain ⟨hhandle,hdeliver⟩ := hrequest true ⟨1,2⟩ [] (fun _ => rfl) nofun
    rw [hlength] at hhandle
    exact ⟨packets,iov,hpackets,hlength,hflatten.trans flatten_singleton,hhandle,hdeliver (by simp [IsPlain]) false⟩
  · obtain ⟨packets,hpackets,htrip⟩ :=
      message_roundTrip (cons_ne_nil (replicate 1464 (7 : Byte)++replicate 1 8) []) .responseMsg .lbRoute 3
    have hlength := length_twoPackets rfl rfl (by decide) hpackets
    obtain ⟨-,-,-,-,-,hresponse⟩ := htrip (by omega)
    obtain ⟨cps,hcps⟩ := hresponse false 8000 pendingPairs _ (.inl rfl) rfl rfl rfl
    rw [hlength] at hcps
    exact ⟨packets,cps,hpackets,hlength,hcps⟩
end P4Benchmarks.R2p2
