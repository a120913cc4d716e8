import P4Benchmarks.SynProxy.Admission
/-!
# Sequence numbers behind the SYN proxy

The client counts from the cookie and the server from a number of its own.  Each direction of a
connection has an entry with the difference, under the hash of its own addresses and ports.
-/
namespace P4Benchmarks.SynProxy
open List Connections FiveTuple

structure Conversation where
  clientAddr : BitVec 32
  (clientPort serverPort : BitVec 16)
  (x r : BitVec 32)

def FiveTuple.segment (t : FiveTuple) (seqNo ackNo : BitVec 32) (syn : Bool) : Segment where
  ethernet := ⟨0x00000A000103,0x00000A000101,typeIpv4⟩
  ipv4 := ⟨4,5,0,40,1,0,0,64,t.protocol,t.srcAddr,t.dstAddr⟩
  tcp := ⟨t.srcPort,t.dstPort,seqNo,ackNo,5,0,false,false,false,true,false,false,syn,false,512,0⟩
section
variable (H : HashUnits) (ipv4Lpm : Ipv4Lpm) (c : Conversation) (connections : Connections)
def Conversation.toServer : FiveTuple := ⟨c.clientAddr,serverAddress,c.clientPort,c.serverPort,tcpProtocol⟩
def Conversation.cookie : BitVec 32 := H.cookie c.clientAddr c.clientPort

structure Conversation.SynAck (seg : Segment) : Prop where
  isSynAck : seg.IsSynAck
  fiveTuple : seg.fiveTuple=c.toServer.reverse
  seqNo : seg.tcp.seqNo=c.r
  ackNo : seg.tcp.ackNo=c.x+1

def Segment.ReachesAs (seg : Segment) (seqNo ackNo : BitVec 32) : Prop :=
  (myIngress H ipv4Lpm connections (.tcp seg)).output=some ((ipv4Lpm seg.ipv4.dstAddr).egressSpec,
    .tcp ((ipv4Lpm seg.ipv4.dstAddr).onSegment { seg with tcp := { seg.tcp with seqNo := seqNo, ackNo := ackNo } }))

def Conversation.Translated : Prop :=
  ∀ (a b : BitVec 32) (seg : Segment),
    (seg.fiveTuple=c.toServer → seg.tcp.seqNo=c.x+1+a → seg.tcp.ackNo=c.cookie H+1+b →
      seg.ReachesAs H ipv4Lpm connections (c.x+1+a) (c.r+1+b)) ∧
    (seg.fiveTuple=c.toServer.reverse → seg.tcp.seqNo=c.r+1+b → seg.tcp.ackNo=c.x+1+a →
      seg.ReachesAs H ipv4Lpm connections (c.cookie H+1+b) (c.x+1+a))

/-- The table once the controller has made its calls for the segment, which came while the table was
`before`. -/
def Connections.learn (before : Connections) (seg : Segment) : Connections :=
  ((myIngress H ipv4Lpm before (.tcp seg)).digests.flatMap recvMsgDigest).foldl add connections
end
variable {H : HashUnits} {ipv4Lpm : Ipv4Lpm} {c : Conversation} {connections : Connections}
theorem reachesAs_iff {seg : Segment} {d : BitVec 32} (hlookup : connections.lookup (H.connectionHash seg.fiveTuple)=some d)
    (hroutes : (ipv4Lpm seg.ipv4.dstAddr).Routes) (seqNo ackNo : BitVec 32) :
    seg.ReachesAs H ipv4Lpm connections seqNo ackNo ↔
      if seg.ipv4.srcAddr=serverAddress then seg.tcp.seqNo+d=seqNo ∧ seg.tcp.ackNo=ackNo
      else seg.tcp.seqNo=seqNo ∧ seg.tcp.ackNo+d=ackNo := by
  obtain ⟨hreturned,htuple⟩ := applyTcp_of_lookup_isSome (Option.isSome_of_eq_some hlookup)
  rw [Segment.ReachesAs,output_of_not_returned hreturned (congrArg ipv4Lpm (congrArg dstAddr htuple)),
    if_neg (by exact hroutes)]
  unfold applyTcp
  rw [show (computeConnectionHash H .zero seg).connectionHash=H.connectionHash seg.fiveTuple from rfl,hlookup]
  unfold forwardRequest
  split_ifs <;> simp [LpmAction.onSegment,Segment.fiveTuple,established,saveDifferenceValue]

theorem add_difference (k r b : BitVec 32) : k+1+b+(r-k)=r+1+b := by bv_omega

theorem translated_iff_of_lookup {d : BitVec 32} (hclient : (ipv4Lpm c.clientAddr).Routes)
    (hserver : (ipv4Lpm serverAddress).Routes)
    (hrev : connections.lookup (H.connectionHash c.toServer.reverse)=some (c.cookie H-c.r))
    (hfwd : connections.lookup (H.connectionHash c.toServer)=some d) : c.Translated H ipv4Lpm connections ↔
      if c.clientAddr=serverAddress then d=0 ∧ c.cookie H=c.r else d=c.r-c.cookie H := by
  constructor
  · intro h
    have hfirst := (h 0 0 (c.toServer.segment (c.x+1+0) (c.cookie H+1+0) false)).1 rfl rfl rfl
    rw [reachesAs_iff (by exact hfwd) hserver] at hfirst
    change if c.clientAddr=serverAddress then c.x+1+0+d=_ ∧ c.cookie H+1+0=_
      else _ ∧ c.cookie H+1+0+d=_ at hfirst
    split_ifs at hfirst ⊢ <;> bv_omega
  · intro h a b seg
    refine ⟨fun htuple hseq hack => ?_,fun htuple hseq hack => ?_⟩
    · have hsrc : seg.ipv4.srcAddr=c.clientAddr := congrArg srcAddr htuple
      have hdst : seg.ipv4.dstAddr=serverAddress := congrArg dstAddr htuple
      rw [reachesAs_iff (htuple ▸ hfwd) (hdst ▸ hserver),hsrc,hseq,hack]
      split_ifs at h ⊢
      · rw [h.1,h.2]
        exact ⟨BitVec.add_zero _,rfl⟩
      · rw [h]
        exact ⟨rfl,add_difference _ _ b⟩
    · have hsrc : seg.ipv4.srcAddr=serverAddress := congrArg srcAddr htuple
      have hdst : seg.ipv4.dstAddr=c.clientAddr := congrArg dstAddr htuple
      rw [reachesAs_iff (htuple ▸ hrev) (hdst ▸ hclient),if_pos hsrc,hseq,hack]
      exact ⟨add_difference _ _ b,rfl⟩
section
variable (H : HashUnits) (ipv4Lpm : Ipv4Lpm) (c : Conversation) (before : Connections) (seg : Segment) (hseg : c.SynAck seg)
  (hbefore : before.lookup (H.connectionHash c.toServer.reverse)=none) (connections : Connections)
  (hfwd : connections.lookup (H.connectionHash c.toServer)=none)
  (hrev : connections.lookup (H.connectionHash c.toServer.reverse)=none) (hfits : connections.length+2 ≤ connectionsSize)
include hseg hbefore hfwd hrev hfits
/-- The entry of the server's direction is added first, so with equal hashes it is the only one. -/
theorem lookup_learn : (connections.learn H ipv4Lpm before seg).lookup (H.connectionHash c.toServer.reverse) =
        some (c.cookie H-c.r) ∧
      (connections.learn H ipv4Lpm before seg).lookup (H.connectionHash c.toServer) =
        some (if H.connectionHash c.toServer=H.connectionHash c.toServer.reverse then c.cookie H-c.r
          else c.r-c.cookie H) := by
  have hsrc : seg.ipv4.srcAddr=serverAddress := congrArg srcAddr hseg.fiveTuple
  have hdst : seg.ipv4.dstAddr=c.clientAddr := congrArg dstAddr hseg.fiveTuple
  have hport : seg.tcp.dstPort=c.clientPort := congrArg dstPort hseg.fiveTuple
  have hcalls : (myIngress H ipv4Lpm before (.tcp seg)).digests.flatMap recvMsgDigest =
      [⟨H.connectionHash c.toServer.reverse,c.cookie H-c.r⟩,⟨H.connectionHash c.toServer,c.r-c.cookie H⟩] := by
    rw [myIngress_tcp_digests,applyTcp_of_lookup_eq_none (by rw [hseg.fiveTuple,hbefore]),
      handshake_of_isSynAck hseg.isSynAck]
    simp [recvMsgDigest,sendDigestConnection,computeConnectionHash,computeCookieValue,hseg.fiveTuple,hseg.seqNo,
      hsrc,hdst,hport,Conversation.cookie,FiveTuple.reverse]
  rw [learn,hcalls]
  have hroom : ¬ connectionsSize ≤ connections.length := by omega
  have hroom' : ¬ connectionsSize ≤ connections.length+1 := by omega
  by_cases heq : H.connectionHash c.toServer=H.connectionHash c.toServer.reverse
  · simp [add,heq,hrev,hroom,lookup_append]
  · have hne := beq_eq_false_iff_ne.mpr heq
    simp [add,heq,hrev,hfwd,hroom,hroom',lookup_append,lookup_cons,hne]

/-- The numbers are translated unless the client has the server's address, or both directions have
the same hash, so that one entry serves for both. -/
theorem translated_iff (hclient : (ipv4Lpm c.clientAddr).Routes) (hserver : (ipv4Lpm serverAddress).Routes)
    (later : List TableAdd) :
    c.Translated H ipv4Lpm (later.foldl add (connections.learn H ipv4Lpm before seg)) ↔
      c.cookie H=c.r ∨ c.clientAddr≠serverAddress ∧ (H.connectionHash c.toServer≠H.connectionHash c.toServer.reverse ∨
        c.cookie H-c.r=c.r-c.cookie H) := by
  obtain ⟨hlearned,hlearned'⟩ := lookup_learn H ipv4Lpm c before seg hseg hbefore connections hfwd hrev hfits
  rw [translated_iff_of_lookup hclient hserver (lookup_foldl_add_of_eq_some hlearned later)
    (lookup_foldl_add_of_eq_some hlearned' later)]
  by_cases haddr : c.clientAddr=serverAddress
  · simp only [haddr,if_true,ne_eq,not_true_eq_false,false_and,or_false]
    refine ⟨And.right,fun heq => ⟨?_,heq⟩⟩
    rw [heq,BitVec.sub_self,ite_self]
    rfl
  · rw [if_neg haddr]
    split_ifs with hhash
    · simp only [haddr,hhash,ne_eq,not_true_eq_false,not_false_eq_true,false_or,true_and]
      exact ⟨.inr,fun h => h.elim (fun heq => by rw [heq]) id⟩
    · exact iff_of_true rfl (.inr ⟨haddr,.inl hhash⟩)
end

def crc32 (t : FiveTuple) : BitVec 32 :=
  let data : BitVec 104 := t.srcAddr++t.dstAddr++t.srcPort++t.dstPort++t.protocol
  ~~~(List.range 104).foldl (fun r i =>
    if r.getLsbD 0 != data.getMsbD (i/8*8+(7-i%8)) then r>>>1^^^0xEDB88320 else r>>>1) 0xFFFFFFFF

def crcUnits : HashUnits := ⟨fun _ _ _ => 0,crc32⟩
variable (clientPort : BitVec 16)
def fromPort : Conversation := ⟨0x0A000101,clientPort,80,7,0⟩
def toPort : Segment := (fromPort clientPort).toServer.reverse.segment 0 8 true

theorem translated_fromPort :
    (fromPort 4000).Translated crcUnits s1Commands (learn crcUnits s1Commands [] [] (toPort 4000)) := by
  have h := translated_iff crcUnits s1Commands (fromPort 4000) [] (toPort 4000) ⟨by decide,rfl,rfl,rfl⟩ rfl [] rfl rfl
    (by decide) (by decide) (by decide) []
  rw [foldl_nil] at h
  exact h.mpr (.inr ⟨by decide,.inl (by decide +kernel)⟩)

/-- Port 9458 of the first host has the same hash in both directions. -/
theorem not_translated_fromPort : ¬(fromPort 9458).Translated crcUnits s1Commands
    (learn crcUnits s1Commands [] [] (toPort 9458)) := by
  intro h
  have hfirst := (h 0 0 ((fromPort 9458).toServer.segment (7+1+0) ((fromPort 9458).cookie crcUnits+1+0) false)).1
    rfl rfl rfl
  exact absurd hfirst (by unfold Segment.ReachesAs; decide +kernel)
end P4Benchmarks.SynProxy
