import P4Benchmarks.R2p2.Reassembly
/-! # Integrity of R2P2 messages -/
namespace P4Benchmarks.R2p2
open Lib List Option ServerPair

structure Message where
  iovs : List (List Byte)
  ne_nil : iovs≠[]
  type : MsgType
  policy : Policy
  rid : BitVec 16
  source : HostTuple
  port : BitVec 16
deriving DecidableEq
variable (m : Message)

def Message.packets : List Packet := r2p2PrepareMsg m.iovs m.type m.policy m.rid

def Message.payload : List Byte := m.iovs.flatten

def Message.isReply : Bool := m.type = .responseMsg ∨ m.type = .raftRep

def Message.isRequest : Bool := m.type = .requestMsg ∨ m.type = .feedbackMsg ∨ m.type = .raftReq

/-- `opened` are the requests whose first packets opened a server pair, and `begun` the replies whose
first packets arrived, the newest first. -/
structure System where
  host : Host
  (sent opened begun : List Message)
  delivered : List Delivery
deriving DecidableEq

def System.init : System := ⟨.init,[],[],[],[]⟩

inductive Action where
  | send (m : Message)
  /-- Packet `i` of a message arrives; nothing prevents it from arriving again. -/
  | arrive (m : Message) (i : Nat) (shouldKeepReq : Bool)
  | sendReq (iovs : List (List Byte)) (reqType : MsgType) (policy : Policy) (port : BitVec 16)
  | freeClientPair (i : Nat)

def r2p2SendReq (h : Host) (iovs : List (List Byte)) (reqType : MsgType) (policy : Policy) (port : BitVec 16) : Host :=
  let rid := h.rid+1
  let request := r2p2PrepareMsg iovs reqType policy rid
  let state := if reqType=.raftReq ∨ request.length=1 then ClientState.wResponse else .wAck
  { h with clientPairs := h.clientPairs++[⟨port,rid,[],0,0,state⟩], rid := rid }

def step (withRaft : Bool) (s : System) : Action → Option System
  | .send m => some { s with sent := m::s.sent }
  | .arrive m i shouldKeepReq =>
    if m ∈ s.sent then do
      let p ← m.packets[i]?
      let (host,ds) ← handleIncomingPck withRaft shouldKeepReq s.host p m.source m.port
      some { s with
        host := host
        opened := if i = 0 ∧ host.serverPairs ≠ s.host.serverPairs then m::s.opened else s.opened
        begun := if i = 0 ∧ m.isReply then m::s.begun else s.begun
        delivered := s.delivered++ds }
    else none
  | .sendReq iovs reqType policy port => some { s with host := r2p2SendReq s.host iovs reqType policy port }
  | .freeClientPair i => some { s with host := { s.host with clientPairs := s.host.clientPairs.eraseIdx i } }

/-- What is delivered is one of the messages that were sent: a request is one of the peer that it is
delivered for, and a reply one to the port and with the id of the client pair. -/
def Delivery.Genuine (sent : List Message) : Delivery → Prop
  | forwardRequest sender iov => ∃ m ∈ sent, m.isRequest ∧ m.source = sender ∧ iov.flatten = m.payload
  | successCb port reqId iov =>
    ∃ m ∈ sent, m.isReply ∧ m.port = port ∧ m.rid = reqId ∧ iov.flatten = m.payload
  | raftProcess msg => ∃ m ∈ sent, m.isRequest ∧ m.source = msg.sender ∧ msg.packets = m.packets
  | handleReplicatedReq msg => ∃ m ∈ sent, m.isRequest ∧ m.source = msg.sender ∧ msg.packets = m.packets

def openerOf (opened : List Message) (source : HostTuple) (rid : BitVec 16) : Option Message :=
  opened.find? fun m => m.source = source ∧ m.rid = rid

def beginnerOf (begun : List Message) (port rid : BitVec 16) : Option Message :=
  begun.find? fun m => m.port = port ∧ m.rid = rid

/-- The condition on an arriving packet.  Orders do not wrap around within its message.  If a request
of its sender with its id is pending, and the packet opens a pair or has the order that is awaited,
then the pending request is the packet's own.  Likewise for a reply, whose first packet finds that
none has begun. -/
def OwnPackets (s : System) : Action → Prop
  | .arrive m i shouldKeepReq =>
    m.packets.length<2^16 ∧
      (m.isReply → ∀ cp ∈ findInPendingClientPairs s.host.clientPairs m.rid m.port,
        if i = 0 then cp.reply = []
        else cp.replyReceivedPackets = .ofNat 16 i → beginnerOf s.begun m.port m.rid = some m) ∧
      (m.isRequest → ∀ sp ∈ findInPendingServerPairs s.host.serverPairs m.rid m.source,
        (if i = 0 then m.packets.length ≠ 1 ∧ (m.type = .requestMsg → shouldKeepReq)
          else sp.requestReceivedPackets = .ofNat 16 i) → openerOf s.opened m.source m.rid = some m)
  | .send _ | .sendReq _ _ _ _ | .freeClientPair _ => True

instance (s : System) : ∀ a, Decidable (OwnPackets s a)
  | .arrive _ _ _ => inferInstanceAs (Decidable (_ ∧ _ ∧ _))
  | .send _ | .sendReq _ _ _ _ | .freeClientPair _ => .isTrue trivial

open Message

section Packets
variable {m : Message} {i : Nat} {p : Packet} (hp : m.packets[i]?=some p)
include hp

theorem Message.header_eq : p.header=packetHeader m.type m.policy m.rid m.packets.length i := by
  simp only [packets,r2p2PrepareMsg,List.getElem?_mapIdx,map_eq_some_iff] at hp
  obtain ⟨payload,-,rfl⟩ := hp
  simp [packets,r2p2PrepareMsg]

theorem Message.rid_eq : p.header.rid=m.rid := by
  rw [header_eq hp]
  rfl

theorem Message.isLast_iff : p.header.isLast ↔ i+1=m.packets.length := by
  rw [header_eq hp]
  exact isLast_packetHeader ..

theorem Message.isFirst_iff : p.header.isFirst ↔ i=0 := by
  rw [header_eq hp]
  exact isFirst_packetHeader ..

theorem Message.getMsgType_eq : p.header.getMsgType=m.type.code := by
  rw [header_eq hp]
  exact getMsgType_packetHeader ..

theorem Message.pOrder_eq (hi : i ≠ 0) : p.header.pOrder = .ofNat 16 i := by
  rw [header_eq hp]
  exact congrArg (BitVec.ofNat 16) (if_neg hi)

theorem Message.concat_packets (hlen : m.packets.length<2^16) {chain : List Packet}
    (hchain : chain <+: m.packets) (hcount : BitVec.ofNat 16 i = .ofNat 16 chain.length) :
    chain++[p] <+: m.packets ∧ (p.header.isLast → chain++[p] = m.packets) := by
  obtain ⟨hi,-⟩ := List.getElem?_eq_some_iff.mp hp
  have hlast := isLast_iff hp
  have hle := hchain.length_le
  obtain rfl : i = chain.length := by
    have hmod := congrArg BitVec.toNat hcount
    simp only [BitVec.toNat_ofNat] at hmod
    omega
  obtain ⟨rest,hrest⟩ := hchain
  rw [← hrest] at hp hlast hi ⊢
  rw [List.getElem?_append_right (Nat.le_refl _),Nat.sub_self] at hp
  cases rest with
  | nil => cases hp
  | cons q rest =>
    cases hp
    refine ⟨⟨rest,by simp⟩,fun h => ?_⟩
    have hnil : rest.length = 0 := by simpa using (hlast.mp h).symm
    rw [length_eq_zero_iff.mp hnil]

theorem Message.first_packets (hlen : m.packets.length<2^16) (hi : i = 0) :
    [p] <+: m.packets ∧ (p.header.isLast → [p] = m.packets) :=
  concat_packets hp hlen nil_prefix (by rw [hi]; rfl)
end Packets

theorem Message.flatten_packets (m : Message) : (m.packets.map Packet.payload).flatten=m.payload :=
  flatten_r2p2PrepareMsg ..

private theorem ofNat_length_concat (chain : List Packet) (p : Packet) :
    .ofNat 16 chain.length+1=BitVec.ofNat 16 (chain++[p]).length := by
  rw [length_append,length_singleton,BitVec.ofNat_add]
  rfl

section Servers
variable {m : Message} {i : Nat} {p : Packet} {opened : List Message}

structure ServerPair.Follows (sp : ServerPair) (m : Message) : Prop where
  packets : sp.request.packets <+: m.packets
  counts : sp.requestReceivedPackets = .ofNat 16 sp.request.packets.length

def ServersFollow (opened : List Message) (sps : List ServerPair) : Prop :=
  ∀ sp ∈ sps, ∃ m, openerOf opened sp.request.sender sp.request.reqId = some m ∧ sp.Follows m

theorem ServerPair.isFor_iff {sp : ServerPair} {rid : BitVec 16} {source : HostTuple} :
    sp.isFor rid source ↔ sp.request.sender = source ∧ sp.request.reqId = rid := by
  obtain ⟨⟨⟨ip,port⟩,_,_⟩,_,_⟩ := sp
  obtain ⟨ip',port'⟩ := source
  simp [isFor,and_assoc]

theorem ServerPair.complete_spec (sp : ServerPair) (p : Packet) :
    (∀ x ∈ (sp.complete p).1, x = sp ∧ ¬ p.header.isLast) ∧ ∀ x ∈ (sp.complete p).2, x = sp.request ∧ p.header.isLast := by
  unfold complete
  split_ifs with hmore <;> simp_all

theorem ServerPair.addPacket_spec {sp : ServerPair} (hp : m.packets[i]?=some p) (hi : i ≠ 0)
    (hlen : m.packets.length<2^16) (hown : sp.requestReceivedPackets = .ofNat 16 i → sp.Follows m) :
    (∀ x ∈ (sp.addPacket p).1, sp.requestReceivedPackets = .ofNat 16 i ∧ x.request.sender = sp.request.sender ∧
        x.request.reqId = sp.request.reqId ∧ x.Follows m) ∧
      ∀ x ∈ (sp.addPacket p).2, x.sender = sp.request.sender ∧ x.packets = m.packets := by
  unfold addPacket
  rw [pOrder_eq hp hi]
  split_ifs with horder
  · simp
  · have hcount : sp.requestReceivedPackets = .ofNat 16 i := (not_ne_iff.mp horder).symm
    have hsp := hown hcount
    obtain ⟨hlonger,hall⟩ := concat_packets hp hlen hsp.packets (hcount ▸ hsp.counts)
    obtain ⟨hkept,hdone⟩ := complete_spec
      { sp with
        request := { sp.request with packets := sp.request.packets++[p] }
        requestReceivedPackets := sp.requestReceivedPackets+1 } p
    constructor
    · intro x hx
      rw [(hkept x hx).1]
      exact ⟨hcount,rfl,rfl,hlonger,by rw [hsp.counts,ofNat_length_concat]⟩
    · intro x hx
      obtain ⟨rfl,hlast⟩ := hdone x hx
      exact ⟨rfl,hall hlast⟩

/-- A new pair of the message whose pairs are pending, or of a sender and id without a pair. -/
theorem ServersFollow.open {sps : List ServerPair} (hsps : ServersFollow opened sps)
    (hown : ∀ sp ∈ findInPendingServerPairs sps m.rid m.source, openerOf opened m.source m.rid = some m)
    {sp : ServerPair} (hkey : sp.request.sender = m.source ∧ sp.request.reqId = m.rid) (hsp : sp.Follows m) :
    ServersFollow (m::opened) (sps++[sp]) := by
  intro x hx
  rw [openerOf,find?_cons]
  by_cases hxm : m.source = x.request.sender ∧ m.rid = x.request.reqId
  · refine ⟨m,by simp [hxm],?_⟩
    rcases mem_append.mp hx with hx | hx
    · obtain ⟨m',hopener,hx'⟩ := hsps x hx
      have hfor : x.isFor m.rid m.source := isFor_iff.mpr ⟨hxm.1.symm,hxm.2.symm⟩
      obtain ⟨y,hy⟩ := Option.isSome_iff_exists.mp (find?_isSome.mpr ⟨x,hx,hfor⟩)
      rw [← hxm.1,← hxm.2,hown y hy] at hopener
      cases hopener
      exact hx'
    · rw [mem_singleton.mp hx]
      exact hsp
  · rcases mem_append.mp hx with hx | hx
    · simpa [hxm,openerOf] using hsps x hx
    · rw [mem_singleton.mp hx] at hxm
      exact absurd ⟨hkey.1.symm,hkey.2.symm⟩ hxm

section Request
variable {shouldKeepReq : Bool} {sps sps' : List ServerPair} {msg : Option R2p2Msg}
  (hp : m.packets[i]?=some p) (hlen : m.packets.length<2^16) (hsps : ServersFollow opened sps)
  (hown : ∀ sp ∈ findInPendingServerPairs sps m.rid m.source,
    (if i = 0 then m.packets.length ≠ 1 ∧ (m.type = .requestMsg → shouldKeepReq)
      else sp.requestReceivedPackets = .ofNat 16 i) → openerOf opened m.source m.rid = some m)
  (h : handleRequest shouldKeepReq sps p m.source=some (sps',msg))
include hp hlen hsps hown h

private theorem handleRequest_first (hi : i = 0) :
    ServersFollow (if i = 0 ∧ sps' ≠ sps then m::opened else opened) sps' ∧
      ∀ x ∈ msg, x.sender = m.source ∧ x.packets = m.packets := by
  unfold handleRequest at h
  rw [if_pos ((isFirst_iff hp).mpr hi)] at h
  split_ifs at h with hdrop
  · cases h
    exact ⟨by simpa using hsps,nofun⟩
  · obtain ⟨hpart,hall⟩ := first_packets hp hlen hi
    obtain ⟨hkept,hdone⟩ := complete_spec (.start p m.source) p
    generalize (ServerPair.start p m.source).complete p = r at h hkept hdone
    obtain ⟨pair,request⟩ := r
    cases h
    refine ⟨?_,fun x hx => ?_⟩
    · cases pair with
      | none => simpa using hsps
      | some sp =>
        obtain ⟨rfl,hmore⟩ := hkept sp rfl
        rw [isLast_iff hp,hi] at hmore
        have hkeep : m.type = .requestMsg → shouldKeepReq := by
          intro htype
          rw [getMsgType_eq hp,htype] at hdrop
          simpa using hdrop
        rw [if_pos ⟨hi,by simp⟩]
        refine hsps.open (fun x hx => hown x hx ?_) ⟨rfl,rid_eq hp⟩ ⟨hpart,rfl⟩
        rw [if_pos hi]
        exact ⟨Ne.symm hmore,hkeep⟩
    · obtain ⟨rfl,hlast⟩ := hdone x hx
      exact ⟨rfl,hall hlast⟩

private theorem handleRequest_later (hi : i ≠ 0) :
    ServersFollow (if i = 0 ∧ sps' ≠ sps then m::opened else opened) sps' ∧
      ∀ x ∈ msg, x.sender = m.source ∧ x.packets = m.packets := by
  unfold handleRequest at h
  rw [if_neg (mt (isFirst_iff hp).mp hi),rid_eq hp] at h
  rw [if_neg fun h => hi h.1]
  rcases onFirst_eq_some h with ⟨-,rfl,rfl⟩ | ⟨front,sp,back,sp',rfl,hfront,hfor,hadd,rfl⟩
  · exact ⟨hsps,nofun⟩
  · obtain ⟨hsender,hreqId⟩ := isFor_iff.mp hfor
    have hfind : findInPendingServerPairs (front++sp::back) m.rid m.source = some sp :=
      List.find?_eq_some_iff_append.mpr ⟨hfor,front,back,rfl,by simpa using hfront⟩
    have hfollows (hcount : sp.requestReceivedPackets = .ofNat 16 i) :
        openerOf opened m.source m.rid = some m ∧ sp.Follows m := by
      have hopener := hown sp hfind (by rwa [if_neg hi])
      obtain ⟨m',hm',hsp⟩ := hsps sp (by simp)
      rw [hsender,hreqId,hopener] at hm'
      cases hm'
      exact ⟨hopener,hsp⟩
    obtain ⟨hnew,hmsg⟩ := addPacket_spec hp hi hlen fun hcount => (hfollows hcount).2
    rw [Option.some.inj hadd] at hnew hmsg
    refine ⟨fun x hx => ?_,fun x hx => ?_⟩
    · simp only [mem_append,mem_toList] at hx
      rcases hx with hx | hx | hx
      · exact hsps x (by simp [hx])
      · obtain ⟨hcount,hxs,hxr,hx'⟩ := hnew x hx
        refine ⟨m,?_,hx'⟩
        rw [hxs,hxr,hsender,hreqId]
        exact (hfollows hcount).1
      · exact hsps x (by simp [hx])
    · obtain ⟨hxs,hx'⟩ := hmsg x hx
      exact ⟨hxs.trans hsender,hx'⟩

theorem handleRequest_spec :
    ServersFollow (if i = 0 ∧ sps' ≠ sps then m::opened else opened) sps' ∧
      ∀ x ∈ msg, x.sender = m.source ∧ x.packets = m.packets := by
  by_cases hi : i = 0
  · exact handleRequest_first hp hlen hsps hown h hi
  · exact handleRequest_later hp hlen hsps hown h hi
end Request
end Servers

section Clients
variable {m : Message} {i : Nat} {p : Packet} {begun : List Message} {cp : ClientPair}

/-- The pair counts its packets, and they are the first ones of the reply that was begun for it. -/
structure ClientPair.Follows (begun : List Message) (cp : ClientPair) : Prop where
  counts : cp.replyReceivedPackets = .ofNat 16 cp.reply.length
  packets : cp.reply ≠ [] → ∃ m, beginnerOf begun cp.port cp.reqId = some m ∧ cp.reply <+: m.packets

/-- All pairs follow, and only the first one of those with the same port and id can have a reply. -/
structure ClientsFollow (begun : List Message) (cps : List ClientPair) : Prop where
  follows : ∀ cp ∈ cps, cp.Follows begun
  ordered : cps.Pairwise fun a b => b.isFor a.reqId a.port → b.reply = []

theorem ClientPair.Follows.cons (h : cp.Follows begun) (hcp : cp.isFor m.rid m.port → cp.reply = []) :
    cp.Follows (m::begun) := by
  refine ⟨h.counts,fun hne => ?_⟩
  have hother : ¬ (m.port = cp.port ∧ m.rid = cp.reqId) := by
    rintro ⟨hport,hrid⟩
    exact hne (hcp (by simp [isFor,hport,hrid]))
  simpa [beginnerOf,find?_cons,hother] using h.packets hne

theorem ClientPair.complete_spec (cp : ClientPair) (p : Packet) :
    (∀ x ∈ (cp.complete p).1, x = cp) ∧ ∀ x ∈ (cp.complete p).2, x = cp.reply ∧ p.header.isLast := by
  unfold ClientPair.complete
  split_ifs with hmore <;> simp_all

variable (hp : m.packets[i]?=some p)
include hp

theorem ClientPair.addPacket_spec (hlen : m.packets.length<2^16) (hcp : cp.Follows begun)
    (hfor : cp.isFor m.rid m.port)
    (hown : if i = 0 then cp.reply = []
      else cp.replyReceivedPackets = .ofNat 16 i → beginnerOf begun m.port m.rid = some m) :
    (∀ x ∈ (cp.addPacket p).1, x.port = cp.port ∧ x.reqId = cp.reqId ∧
        x.Follows (if i = 0 then m::begun else begun)) ∧
      ∀ x ∈ (cp.addPacket p).2, x = m.packets := by
  simp only [isFor,decide_eq_true_eq] at hfor
  unfold ClientPair.addPacket
  by_cases hi : i = 0
  · rw [if_pos hi] at hown
    rw [if_pos ((isFirst_iff hp).mpr hi),hown,if_pos hi]
    obtain ⟨hpart,hall⟩ := first_packets hp hlen hi
    obtain ⟨hkept,hdone⟩ := ClientPair.complete_spec
      { cp with reply := []++[p], replyExpectedPackets := p.header.pOrder, replyReceivedPackets := 1 } p
    refine ⟨fun x hx => ?_,fun x hx => ?_⟩
    · rw [hkept x hx]
      exact ⟨rfl,rfl,rfl,fun _ => ⟨m,by simp [beginnerOf,hfor],hpart⟩⟩
    · obtain ⟨rfl,hlast⟩ := hdone x hx
      exact hall hlast
  · rw [if_neg hi] at hown
    rw [if_neg (mt (isFirst_iff hp).mp hi),pOrder_eq hp hi,if_neg hi]
    split_ifs with horder
    · simp
    · have hcount : cp.replyReceivedPackets = .ofNat 16 i := (not_ne_iff.mp horder).symm
      have hbegun := hown hcount
      have hne : cp.reply ≠ [] := by
        intro hnil
        have hmod := congrArg BitVec.toNat (hcount.symm.trans hcp.counts)
        obtain ⟨hlt,-⟩ := List.getElem?_eq_some_iff.mp hp
        simp only [BitVec.toNat_ofNat,hnil,length_nil] at hmod
        omega
      obtain ⟨m',hm',hreply⟩ := hcp.packets hne
      rw [hfor.1,hfor.2,hbegun] at hm'
      cases hm'
      obtain ⟨hlonger,hall⟩ := concat_packets hp hlen hreply (hcount ▸ hcp.counts)
      obtain ⟨hkept,hdone⟩ := ClientPair.complete_spec
        { cp with reply := cp.reply++[p], replyReceivedPackets := cp.replyReceivedPackets+1 } p
      refine ⟨fun x hx => ?_,fun x hx => ?_⟩
      · rw [hkept x hx]
        refine ⟨rfl,rfl,?_,fun _ => ⟨m,?_,hlonger⟩⟩
        · rw [hcp.counts,ofNat_length_concat]
        · rw [hfor.1,hfor.2]
          exact hbegun
      · obtain ⟨rfl,hlast⟩ := hdone x hx
        exact hall hlast

theorem Message.isReply_iff : m.isReply ↔ p.header.getMsgType=MsgType.raftRep.code ∨
      p.header.getMsgType=MsgType.responseMsg.code := by
  rw [getMsgType_eq hp,isReply]
  cases m.type <;> decide

theorem ClientPair.handle_spec {withRaft : Bool} (hlen : m.packets.length<2^16) (hcp : cp.Follows begun)
    (hfor : cp.isFor m.rid m.port)
    (hown : m.isReply → if i = 0 then cp.reply = []
      else cp.replyReceivedPackets = .ofNat 16 i → beginnerOf begun m.port m.rid = some m)
    {cp' : Option ClientPair} {reply : Option (List Packet)} (h : cp.handle withRaft p=some (cp',reply)) :
    (∀ x ∈ cp', x.port = cp.port ∧ x.reqId = cp.reqId ∧
        x.Follows (if i = 0 ∧ m.isReply then m::begun else begun)) ∧
      ∀ x ∈ reply, m.isReply ∧ x=m.packets := by
  unfold ClientPair.handle at h
  split_ifs at h with hraft hreply hstate hack hstate hdrop
  · have hisReply := (isReply_iff hp).mpr hreply
    obtain ⟨hnew,hmsg⟩ := ClientPair.addPacket_spec hp hlen hcp hfor (hown hisReply)
    rw [some.inj h] at hnew hmsg
    simp only [hisReply,and_true]
    exact ⟨hnew,fun x hx => ⟨trivial,hmsg x hx⟩⟩
  · cases h
    have hnot : ¬ m.isReply := mt (isReply_iff hp).mp hreply
    refine ⟨?_,nofun⟩
    rintro _ ⟨⟩
    rw [if_neg fun h => hnot h.2]
    exact ⟨rfl,rfl,hcp.counts,hcp.packets⟩
  · cases h
    exact ⟨nofun,nofun⟩

theorem handleResponse_spec {withRaft : Bool} {cps cps' : List ClientPair} {reply : Option (List Packet)}
    (hlen : m.packets.length<2^16) (hcps : ClientsFollow begun cps)
    (hown : m.isReply → ∀ cp ∈ findInPendingClientPairs cps m.rid m.port, if i = 0 then cp.reply = []
      else cp.replyReceivedPackets = .ofNat 16 i → beginnerOf begun m.port m.rid = some m)
    (h : handleResponse withRaft cps p m.port=some (cps',reply)) :
    ClientsFollow (if i = 0 ∧ m.isReply then m::begun else begun) cps' ∧
      ∀ x ∈ reply, m.isReply ∧ x=m.packets := by
  -- a reply that begins concerns only the pair found
  have hother {x : ClientPair} (hx : x.Follows begun) (hempty : x.isFor m.rid m.port → m.isReply → i = 0 → x.reply = []) :
      x.Follows (if i = 0 ∧ m.isReply then m::begun else begun) := by
    split_ifs with hfirst
    · exact hx.cons fun hfor => hempty hfor hfirst.2 hfirst.1
    · exact hx
  rw [handleResponse,rid_eq hp] at h
  rcases onFirst_eq_some h with ⟨hnone,rfl,rfl⟩ | ⟨front,cp,back,cp',rfl,hfront,hfor,hhandle,rfl⟩
  · refine ⟨⟨fun x hx => hother (hcps.follows x hx) fun hfor => ?_,hcps.ordered⟩,nofun⟩
    exact absurd hfor (find?_eq_none.mp hnone x hx)
  · have hfind : findInPendingClientPairs (front++cp::back) m.rid m.port = some cp :=
      List.find?_eq_some_iff_append.mpr ⟨hfor,front,back,rfl,by simpa using hfront⟩
    obtain ⟨hnew,hmsg⟩ := ClientPair.handle_spec hp hlen (hcps.follows cp (by simp)) hfor
      (fun hisReply => hown hisReply cp hfind) hhandle
    obtain ⟨hordF,hordB,hordFB⟩ := pairwise_append.mp hcps.ordered
    obtain ⟨hcpB,hordB⟩ := pairwise_cons.mp hordB
    have hkey : cp.port = m.port ∧ cp.reqId = m.rid := by simpa [ClientPair.isFor] using hfor
    refine ⟨⟨fun x hx => ?_,?_⟩,hmsg⟩
    · simp only [mem_append,mem_toList] at hx
      rcases hx with hx | hx | hx
      · exact hother (hcps.follows x (by simp [hx])) fun hfor' => absurd hfor' (by simp [hfront x hx])
      · exact (hnew x hx).2.2
      · refine hother (hcps.follows x (by simp [hx])) fun hfor' _ _ => hcpB x hx ?_
        rwa [hkey.1,hkey.2]
    · cases cp' with
      | none => exact hcps.ordered.sublist (by simp)
      | some x =>
        obtain ⟨hport,hreqId,-⟩ := hnew x rfl
        refine pairwise_append.mpr ⟨hordF,pairwise_cons.mpr ⟨?_,hordB⟩,?_⟩
        · rw [hport,hreqId]
          exact hcpB
        · intro a ha b hb
          rcases mem_cons.mp hb with rfl | hb
          · intro hab
            have hne := hfront a ha
            simp only [ClientPair.isFor,decide_eq_true_eq,decide_eq_false_iff_not] at hab hne
            exact absurd ⟨hab.1.symm.trans (hport.trans hkey.1),hab.2.symm.trans (hreqId.trans hkey.2)⟩ hne
          · exact hordFB a ha b (mem_cons_of_mem _ hb)
end Clients

structure Intact (s : System) : Prop where
  server : ServersFollow s.opened s.host.serverPairs
  client : ClientsFollow s.begun s.host.clientPairs
  genuine : ∀ d ∈ s.delivered, d.Genuine s.sent

theorem Delivery.Genuine.mono {sent sent' : List Message} (hsub : sent ⊆ sent') {d : Delivery}
    (h : d.Genuine sent) : d.Genuine sent' := by
  cases d with
  | forwardRequest sender iov | successCb port reqId iov | raftProcess msg | handleReplicatedReq msg =>
    obtain ⟨m,hm,hd⟩ := h
    exact ⟨m,hsub hm,hd⟩

variable {m : Message}

theorem flatten_prepareToAppIovec {packets : List Packet} {iov : List (List Byte)} (hpackets : packets=m.packets)
    (h : prepareToAppIovec packets=some iov) : iov.flatten=m.payload := by
  unfold prepareToAppIovec at h
  split_ifs at h
  rw [← some.inj h,hpackets,flatten_packets]

variable {sent : List Message}

theorem deliverRequest_genuine {withRaft : Bool} {p : Packet} {msg : R2p2Msg} (hm : m ∈ sent) (hrequest : m.isRequest)
    (hmsg : msg.sender = m.source ∧ msg.packets = m.packets) {d : Delivery}
    (h : deliverRequest withRaft p msg=some d) : d.Genuine sent := by
  unfold deliverRequest at h
  split_ifs at h
  · rw [← some.inj h]
    exact ⟨m,hm,hrequest,hmsg.1.symm,hmsg.2⟩
  · rw [← some.inj h]
    exact ⟨m,hm,hrequest,hmsg.1.symm,hmsg.2⟩
  · obtain ⟨iov,hiov,rfl⟩ := map_eq_some_iff.mp h
    exact ⟨m,hm,hrequest,hmsg.1.symm,flatten_prepareToAppIovec hmsg.2 hiov⟩

theorem Message.isRequest_of_header {i : Nat} {p : Packet} (hp : m.packets[i]?=some p)
    (hsingle : p.header.isRaftSingleMsg = false) (hresponse : p.header.isResponse=false) : m.isRequest := by
  rw [Header.isRaftSingleMsg,getMsgType_eq hp] at hsingle
  rw [Header.isResponse,getMsgType_eq hp] at hresponse
  rw [isRequest]
  revert hsingle hresponse
  cases m.type <;> decide

theorem Intact.arrive {withRaft shouldKeepReq : Bool} {s : System} (hs : Intact s)
    {i : Nat} {p : Packet} (hm : m ∈ s.sent) (hp : m.packets[i]?=some p)
    (hown : OwnPackets s (.arrive m i shouldKeepReq)) {host : Host} {ds : List Delivery}
    (h : handleIncomingPck withRaft shouldKeepReq s.host p m.source m.port=some (host,ds)) :
    Intact { s with
      host := host
      opened := if i = 0 ∧ host.serverPairs ≠ s.host.serverPairs then m::s.opened else s.opened
      begun := if i = 0 ∧ m.isReply then m::s.begun else s.begun
      delivered := s.delivered++ds } := by
  obtain ⟨hlen,hreplies,hrequests⟩ := hown
  have hgenuine (ds' : List Delivery) (hds' : ∀ d ∈ ds', d.Genuine s.sent) :
      ∀ d ∈ s.delivered++ds', d.Genuine s.sent := by
    intro d hd
    exact (mem_append.mp hd).elim (hs.genuine d) (hds' d)
  unfold handleIncomingPck at h
  split_ifs at h with hsingle hraft hresponse
  · cases h
    have hnot : ¬ m.isReply := by
      rw [Header.isRaftSingleMsg,getMsgType_eq hp] at hsingle
      rw [isReply]
      revert hsingle
      cases m.type <;> decide
    exact ⟨by simpa using hs.server,by simpa [hnot] using hs.client,hgenuine [] nofun⟩
  · obtain ⟨⟨cps,reply⟩,hcps,h⟩ := bind_eq_some_iff.mp h
    obtain ⟨hclient,hreply⟩ := handleResponse_spec hp hlen hs.client hreplies hcps
    cases reply with
    | none =>
      cases h
      exact ⟨by simpa using hs.server,hclient,hgenuine [] nofun⟩
    | some packets =>
      obtain ⟨iov,hiov,h⟩ := bind_eq_some_iff.mp h
      cases h
      obtain ⟨hisReply,hpackets⟩ := hreply packets rfl
      refine ⟨by simpa using hs.server,hclient,hgenuine _ fun d hd => ?_⟩
      rw [mem_singleton.mp hd]
      exact ⟨m,hm,hisReply,rfl,(rid_eq hp).symm,flatten_prepareToAppIovec hpackets hiov⟩
  · have hrequest := isRequest_of_header hp (Bool.not_eq_true _ ▸ hsingle) (Bool.not_eq_true _ ▸ hresponse)
    have hnot : ¬ m.isReply := by
      revert hrequest
      rw [isRequest,isReply]
      cases m.type <;> decide
    obtain ⟨⟨sps,request⟩,hsps,h⟩ := bind_eq_some_iff.mp h
    obtain ⟨hserver,hmsg⟩ := handleRequest_spec hp hlen hs.server (hrequests hrequest) hsps
    have hclient : ClientsFollow (if i = 0 ∧ m.isReply then m::s.begun else s.begun) s.host.clientPairs := by
      simpa [hnot] using hs.client
    cases request with
    | none =>
      cases h
      exact ⟨hserver,hclient,hgenuine [] nofun⟩
    | some msg =>
      obtain ⟨d,hd,h⟩ := bind_eq_some_iff.mp h
      cases h
      refine ⟨hserver,hclient,hgenuine _ fun d' hd' => ?_⟩
      rw [mem_singleton.mp hd']
      exact deliverRequest_genuine hm hrequest (hmsg msg rfl) hd

theorem Intact.step {withRaft : Bool} {s s' : System} (hs : Intact s) {a : Action}
    (hown : OwnPackets s a) (h : R2p2.step withRaft s a=some s') : Intact s' := by
  cases a with
  | send m =>
    cases h
    exact ⟨hs.server,hs.client,fun d hd => (hs.genuine d hd).mono (subset_cons_self m _)⟩
  | arrive m i shouldKeepReq =>
    obtain ⟨hm,h⟩ := ite_none_right_eq_some.mp h
    obtain ⟨p,hp,h⟩ := bind_eq_some_iff.mp h
    obtain ⟨⟨host,ds⟩,hpck,h⟩ := bind_eq_some_iff.mp h
    cases h
    exact hs.arrive hm hp hown hpck
  | sendReq iovs reqType policy port =>
    cases h
    refine ⟨hs.server,⟨fun cp hcp => ?_,?_⟩,hs.genuine⟩
    · rcases mem_append.mp hcp with hcp | hcp
      · exact hs.client.follows cp hcp
      · rw [mem_singleton.mp hcp]
        exact ⟨rfl,fun hne => absurd rfl hne⟩
    · refine pairwise_append.mpr ⟨hs.client.ordered,pairwise_singleton _ _,fun a _ b hb _ => ?_⟩
      rw [mem_singleton.mp hb]
  | freeClientPair i =>
    cases h
    exact ⟨hs.server,⟨fun cp hcp => hs.client.follows cp (mem_of_mem_eraseIdx hcp),
      hs.client.ordered.sublist (eraseIdx_sublist ..)⟩,hs.genuine⟩

/-- In every run in which each arriving packet finds no other message of its sender or port and id
pending, whatever the host delivers is one of the messages that were sent. -/
theorem delivered_genuine (withRaft : Bool) (as : List Action) (s : System)
    (hrun : exec (step withRaft) System.init as=some s)
    (hown : EachStep (step withRaft) OwnPackets System.init as) : ∀ d ∈ s.delivered, d.Genuine s.sent := by
  have hinit : Intact System.init := ⟨nofun,⟨nofun,.nil⟩,nofun⟩
  exact (exec_invariant (fun _ _ _ hs hcond hstep => hs.step hcond hstep) hinit hrun hown).genuine

section Runs
private def firstHeader : Header := packetHeader .requestMsg .fixedRoute 5 2 0
private def secondHeader : Header := packetHeader .requestMsg .fixedRoute 5 2 1
private def longSource : HostTuple := ⟨0x0A000001,4000⟩
variable (first second : List Byte)
private def longRequest : Message where
  iovs := [first++second]
  ne_nil := cons_ne_nil _ _
  type := .requestMsg
  policy := .fixedRoute
  rid := 5
  source := longSource
  port := 8000

private def TwoPackets : Prop :=
  first.length=minPayloadSize ∧ payloadSize<first.length+second.length ∧ second.length≤payloadSize

private theorem packets_longRequest {first second : List Byte} (h : TwoPackets first second) :
    (longRequest first second).packets=[⟨firstHeader,first⟩,⟨secondHeader,second⟩] := by
  obtain ⟨hfirst,hlong,hsecond⟩ := h
  have hne : second≠[] := by
    rintro rfl
    rw [hfirst] at hlong
    exact absurd hlong (by decide)
  have hfill : fillBuffers true [first++second]=[first,second] := fillBuffers_two hfirst hne hsecond
  have hsmall : decide (¬[first++second].flatten.length≤payloadSize ∧ MsgType.requestMsg=.requestMsg) := by
    simp only [flatten_singleton,length_append,and_true,decide_eq_true_eq]
    omega
  exact r2p2PrepareMsg_eq (hsmall ▸ hfill)

private def waiting (first : List Byte) : ServerPair := ⟨⟨longSource,5,[⟨firstHeader,first⟩]⟩,2,1⟩

private theorem step_firstPacket {a₀ a₁ : List Byte} (h : TwoPackets a₀ a₁) (sps : List ServerPair)
    (hsent : longRequest a₀ a₁ ∈ sent) (opened : List Message) :
    step false ⟨⟨sps,[],0⟩,sent,opened,[],[]⟩ (.arrive (longRequest a₀ a₁) 0 true) =
      some ⟨⟨sps++[waiting a₀],[],0⟩,sent,longRequest a₀ a₁::opened,[],[]⟩ := by
  have hreq : firstHeader.isRaftSingleMsg=false ∧ firstHeader.isResponse=false := by decide
  have hfirst : firstHeader.isFirst ∧ firstHeader.isLast=false := by decide
  have hwait : start ⟨firstHeader,a₀⟩ longSource=waiting a₀ := rfl
  have hhandle : handleIncomingPck false true ⟨sps,[],0⟩ ⟨firstHeader,a₀⟩ longSource 8000 =
      some (⟨sps++[waiting a₀],[],0⟩,[]) := by
    simp [handleIncomingPck,handleRequest,complete,hreq,hfirst,hwait]
  rw [step,if_pos hsent,packets_longRequest h]
  show (handleIncomingPck false true ⟨sps,[],0⟩ ⟨firstHeader,a₀⟩ longSource 8000).bind _=_
  rw [hhandle,bind_some]
  simp [longRequest,isReply]

private theorem step_secondPacket (a₀ : List Byte) {b₀ b₁ : List Byte} (h : TwoPackets b₀ b₁) (sps : List ServerPair)
    (hsent : longRequest b₀ b₁ ∈ sent) (opened : List Message) :
    step false ⟨⟨waiting a₀::sps,[],0⟩,sent,opened,[],[]⟩ (.arrive (longRequest b₀ b₁) 1 true) =
      some ⟨⟨sps,[],0⟩,sent,opened,[],[.forwardRequest longSource [a₀,b₁]]⟩ := by
  have hreq : secondHeader.isRaftSingleMsg=false ∧ secondHeader.isResponse=false := by decide
  have hlast : secondHeader.isFirst=false ∧ secondHeader.isLast := by decide
  have hrid : secondHeader.rid=5 ∧ secondHeader.pOrder=1 := by decide
  have hplain : secondHeader.isRaftMsg=false ∧ secondHeader.isReplicatedReq=false := by decide
  have hhandle : handleIncomingPck false true ⟨waiting a₀::sps,[],0⟩ ⟨secondHeader,b₁⟩
      longSource 8000=some (⟨sps,[],0⟩,[.forwardRequest longSource [a₀,b₁]]) := by
    simp [handleIncomingPck,handleRequest,onFirst,isFor,addPacket,
      complete,deliverRequest,prepareToAppIovec,waiting,hreq,hlast,hrid,hplain]
  rw [step,if_pos hsent,packets_longRequest h]
  show (handleIncomingPck false true ⟨waiting a₀::sps,[],0⟩ ⟨secondHeader,b₁⟩ longSource 8000).bind _=_
  rw [hhandle,bind_some]
  rfl

/-- The second packet of the first request is lost.  A later request from the same port has the same
id, and its second packet is added to the first packet of the old one. -/
private def reusedId (a b : Message) : List Action :=
  [.send a,.arrive a 0 true,.send b,.arrive b 0 true,.arrive b 1 true]

private theorem exec_reusedId {a₀ a₁ b₀ b₁ : List Byte} (ha : TwoPackets a₀ a₁) (hb : TwoPackets b₀ b₁) :
    exec (step false) System.init (reusedId (longRequest a₀ a₁) (longRequest b₀ b₁)) =
      some ⟨⟨[waiting b₀],[],0⟩,[longRequest b₀ b₁,longRequest a₀ a₁],
        [longRequest b₀ b₁,longRequest a₀ a₁],[],[.forwardRequest longSource [a₀,b₁]]⟩ := by
  have hfirst := step_firstPacket ha [] (mem_singleton_self _) []
  have hsent : longRequest b₀ b₁ ∈ [longRequest b₀ b₁,longRequest a₀ a₁] := mem_cons_self
  have hsecond := step_firstPacket hb [waiting a₀] hsent [longRequest a₀ a₁]
  have hmixed := step_secondPacket a₀ hb [waiting b₀] hsent [longRequest b₀ b₁,longRequest a₀ a₁]
  simp only [reusedId,exec_cons_eq_some]
  exact ⟨_,rfl,_,hfirst,_,rfl,_,hsecond,_,hmixed,rfl⟩

private theorem twoPackets_replicate (b : Byte) : TwoPackets (List.replicate 14 b) (List.replicate 1451 b) := by
  rw [TwoPackets,length_replicate,length_replicate]
  decide

theorem reusedId_mixes_requests : ∃ s, exec (step false) System.init
        (reusedId (longRequest (List.replicate 14 0x61) (List.replicate 1451 0x61))
          (longRequest (List.replicate 14 0x62) (List.replicate 1451 0x62)))=some s ∧
      ∃ d ∈ s.delivered, ¬d.Genuine s.sent := by
  have hne {n : Nat} (hn : n≠0) : List.replicate n (0x61 : Byte)≠List.replicate n 0x62 := by
    intro heq
    exact absurd ((replicate_inj.mp heq).2.resolve_left hn) (by decide)
  refine ⟨_,exec_reusedId (twoPackets_replicate 0x61) (twoPackets_replicate 0x62),_,mem_singleton_self _,?_⟩
  rintro ⟨m,hm,-,-,hflat⟩
  rw [flatten_cons,flatten_singleton] at hflat
  rcases mem_cons.mp hm with rfl | hm
  · rw [payload,longRequest,flatten_singleton] at hflat
    exact hne (by decide) (append_cancel_right hflat)
  · rw [mem_singleton.mp hm,payload,longRequest,flatten_singleton] at hflat
    exact hne (by decide) (append_cancel_left hflat).symm

private theorem own_longRequest {a₀ a₁ : List Byte} (h : TwoPackets a₀ a₁) {s : System}
    (hs : s.host.serverPairs = [] ∨ openerOf s.opened longSource 5 = some (longRequest a₀ a₁)) (i : Nat) :
    OwnPackets s (.arrive (longRequest a₀ a₁) i true) := by
  refine ⟨by simp [packets_longRequest h],fun hreply => absurd hreply ?_,fun _ sp hsp _ => ?_⟩
  · simp [longRequest,isReply]
  · rcases hs with hs | hs
    · rw [findInPendingServerPairs,hs] at hsp
      cases hsp
    · exact hs

private def repeatedFirst (a : Message) : List Action :=
  [.send a,.arrive a 0 true,.arrive a 0 true,.arrive a 1 true]

private theorem exec_repeatedFirst {a₀ a₁ : List Byte} (h : TwoPackets a₀ a₁) :
    exec (step false) System.init (repeatedFirst (longRequest a₀ a₁)) =
        some ⟨⟨[waiting a₀],[],0⟩,[longRequest a₀ a₁],[longRequest a₀ a₁,longRequest a₀ a₁],[],
          [.forwardRequest longSource [a₀,a₁]]⟩ ∧
      EachStep (step false) OwnPackets System.init (repeatedFirst (longRequest a₀ a₁)) := by
  have hsent : longRequest a₀ a₁ ∈ [longRequest a₀ a₁] := mem_singleton_self _
  have hfirst := step_firstPacket h [] hsent []
  have hagain := step_firstPacket h [waiting a₀] hsent [longRequest a₀ a₁]
  have hlast := step_secondPacket a₀ h [waiting a₀] hsent [longRequest a₀ a₁,longRequest a₀ a₁]
  have hopener (opened : List Message) :
      openerOf (longRequest a₀ a₁::opened) longSource 5 = some (longRequest a₀ a₁) := by
    simp [openerOf,longRequest]
  constructor
  · simp only [repeatedFirst,exec_cons_eq_some]
    exact ⟨_,rfl,_,hfirst,_,hagain,_,hlast,rfl⟩
  · exact .cons trivial rfl (.cons (own_longRequest h (.inl rfl) 0) hfirst
      (.cons (own_longRequest h (.inr (hopener _)) 0) hagain
        (.cons (own_longRequest h (.inr (hopener _)) 1) hlast trivial)))

theorem repeatedFirst_genuine : ∃ s, exec (step false) System.init
      (repeatedFirst (longRequest (List.replicate 14 0x61) (List.replicate 1451 0x61))) = some s ∧
    s.delivered = [.forwardRequest longSource [List.replicate 14 0x61,List.replicate 1451 0x61]] ∧
      ∀ d ∈ s.delivered, d.Genuine s.sent := by
  obtain ⟨hrun,hown⟩ := exec_repeatedFirst (twoPackets_replicate 0x61)
  exact ⟨_,hrun,rfl,delivered_genuine false _ _ hrun hown⟩
end Runs
end P4Benchmarks.R2p2
