import P4Benchmarks.R2p2.Hovercraft
/-! # Round trip of HovercRaft messages -/
namespace P4Benchmarks.R2p2
open Lib List LogEntry Reader RaftMsg Option Parses
theorem readWord_parses {w : Nat} (hw : 256^(w/8)=2^w) (v : BitVec w) :
    Reads (readWord w) (leBytes (w/8) v.toNat) v := by
  have h := (readHost_parses (w/8) v.toNat).map (BitVec.ofNat w)
  have hv : .ofNat w (v.toNat%256^(w/8))=v := by
    apply BitVec.eq_of_toNat_eq
    simp [hw]
  rwa [hv] at h

theorem readEntryHead_parses (h : EntryHead) : Reads readEntryHead h.bytes h := by
  refine (readWord_parses (by decide) h.term).bind ?_
  refine (readWord_parses (by decide) h.id).bind ?_
  refine (readWord_parses (by decide) h.type).bind ?_
  exact (readWord_parses (by decide) h.replier).bind_pure _

theorem readSenderRid_parses (m : R2p2Msg) : Reads readSenderRid (senderRidBytes m) m.key := by
  refine (readWord_parses (by decide) m.sender.ip).bind ?_
  refine (readWord_parses (by decide) m.sender.port).bind ?_
  exact (readWord_parses (by decide) m.reqId).bind_pure _

theorem readHeader_parses (h : Header) : Reads readHeader h.bytes h := by
  refine (readWord_parses (by decide) h.magic).bind ?_
  refine (readWord_parses (by decide) h.headerSize).bind ?_
  refine (readWord_parses (by decide) h.typePolicy).bind ?_
  refine (readWord_parses (by decide) h.flags).bind ?_
  refine (readWord_parses (by decide) h.rid).bind ?_
  exact (readWord_parses (by decide) h.pOrder).bind_pure _
variable (junk : Nat → Byte) (start n : Nat)
@[simp] theorem length_unset : (unset junk start n).length=n := by simp [unset]
theorem readEntry_parses (e : LogEntry) : Reads readEntry (entryBytes junk e) (e.head,e.request.totalLen) := by
  have hlen : e.request.totalLen%256^4=e.request.totalLen :=
    Nat.mod_eq_of_lt (Nat.lt_trans e.request.totalLen_lt (by decide))
  have hhost := readHost_parses 4 e.request.totalLen
  rw [hlen] at hhost
  refine (readEntryHead_parses e.head).bind ?_
  refine (readBytes_parses (length_unset junk 0 15)).bind ?_
  refine hhost.bind ?_
  exact (readBytes_parses (length_unset junk 15 4)).bind_pure _

theorem readMsg_parses (m : R2p2Msg) : Reads readMsg (msgBytes junk m) m.key := by
  refine (readSenderRid_parses m).bind ?_
  exact (readBytes_parses (length_unset junk 19 16)).bind_pure _

theorem readRequest_parses {r : Request} (h : r.packets.length=1) : ∃ p, r.packets=[p] ∧ Reads (readRequest r.totalLen)
      (r.packets.map Packet.bytes).flatten p := by
  obtain ⟨p,hp⟩ := length_eq_one_iff.mp h
  have hlast : p.header.isLast := by
    have hhead := r.isLast_head.mpr h
    simpa [hp,head_cons] using hhead
  have hmagic : p.header.magic=magicByte := r.magic p (by simp [hp])
  have hlen : r.totalLen-headerBytes=p.payload.length := by simp [R2p2Msg.totalLen,hp,Packet.size]
  refine ⟨p,hp,?_⟩
  rw [hp,map_singleton,flatten_singleton]
  refine (readHeader_parses p.header).bind ?_
  rw [if_neg (by simp [hmagic]),if_pos hlast,hlen]
  exact (readUpTo_parses p.payload).bind_pure _

theorem readRequest_fails {r : Request} (h : r.packets.length≠1) :
    Yields view (readRequest r.totalLen) (r.packets.map Packet.bytes).flatten none := by
  obtain ⟨p,ps,hp⟩ := exists_cons_of_ne_nil r.ne_nil
  have hlast : ¬p.header.isLast := by
    intro htrue
    apply h
    apply r.isLast_head.mp
    simpa [hp,head_cons] using htrue
  rw [hp,map_cons,flatten_cons,Packet.bytes,append_assoc]
  refine (readHeader_parses p.header).bind_yields ?_
  split_ifs <;> exact Fails.failure _

theorem msgToEntry_yields (e : LogEntry) : Yields view msgToEntry (entryIov junk e).flatten
    (if e.request.packets.length=1 then some e.toRaftEntry else none) := by
  refine (readEntry_parses junk e).bind_yields ?_
  refine (readMsg_parses junk e.request.toR2p2Msg).bind_yields ?_
  split_ifs with h
  · obtain ⟨p,hp,hrequest⟩ := readRequest_parses h
    have hentry : e.toRaftEntry=⟨e.head,some ⟨e.request.sender,e.request.reqId,[p]⟩,e.request.totalLen⟩ := by
      rw [← hp]
      rfl
    rw [hentry]
    exact hrequest.bind_pure _
  · exact (readRequest_fails h).bind_pure _

theorem msgToEntries_yields (es : List LogEntry) : Yields view (msgToEntries es.length) (entriesToIov junk es).flatten
      (if ∀ e ∈ es, e.request.packets.length=1 then some (es.map toRaftEntry) else none) := by
  induction es generalizing junk with
  | nil => exact pure []
  | cons e es ih =>
    have hentry := msgToEntry_yields junk e
    rw [entriesToIov,flatten_append]
    split_ifs at hentry with hsingle
    · have hentries := (ih fun i => junk (64+i)).bind_pure (e.toRaftEntry :: ·)
      rw [apply_ite (Option.map _)] at hentries
      simp only [forall_mem_cons,hsingle,true_and]
      exact bind_yields hentry hentries
    · rw [if_neg fun h => hsingle (h e mem_cons_self)]
      exact Fails.bind hentry _ _

def fetchEntries : List R2p2Msg → List LogEntry → List RaftEntry
  | _, [] => []
  | unordered, e::es =>
    let found := findInUnorderedReqs unordered e.request.key
    ⟨e.head,found.1,found.1.elim 0 R2p2Msg.totalLen⟩::fetchEntries found.2 es
variable (unordered : List R2p2Msg) (es : List LogEntry)
theorem msgToEntriesAccel_parses : Reads (msgToEntriesAccel es.length unordered) (entriesToIovAccel es).flatten
      (fetchEntries unordered es) := by
  induction es generalizing unordered with
  | nil => exact pure []
  | cons e es ih =>
    refine (readEntryHead_parses e.head).bind ?_
    refine (readSenderRid_parses e.request.toR2p2Msg).bind ?_
    exact (ih _).bind_pure _

@[local simp] def RequestsPresent (unordered : List R2p2Msg) (es : List LogEntry) : Prop :=
  (es.map fun e => e.request.key).Nodup ∧
    ∀ e ∈ es, (findInUnorderedReqs unordered e.request.key).1=some e.request.toR2p2Msg

theorem findInUnorderedReqs_after (key key' : HostTuple × BitVec 16) :
    (findInUnorderedReqs (findInUnorderedReqs unordered key).2 key').1 =
      if key'=key then none else (findInUnorderedReqs unordered key').1 := by
  simp only [findInUnorderedReqs,List.find?_filter]
  split_ifs with heq
  · simp [heq]
  · congr 1
    funext m
    by_cases hm : m.key=key'
    · simp [hm,heq]
    · simp [hm]

theorem fetchEntries_eq_iff : fetchEntries unordered es=es.map toRaftEntry ↔ RequestsPresent unordered es := by
  induction es generalizing unordered with
  | nil => simp [fetchEntries]
  | cons e es ih =>
    have hhead (found : Option R2p2Msg) : (⟨e.head,found,found.elim 0 R2p2Msg.totalLen⟩ : RaftEntry)=e.toRaftEntry ↔
          found=some e.request.toR2p2Msg := by
      constructor
      · intro heq
        exact congrArg RaftEntry.buf heq
      · rintro rfl
        rfl
    rw [fetchEntries,map_cons,List.cons.injEq,hhead,ih]
    simp only [RequestsPresent,map_cons,nodup_cons,forall_mem_cons]
    -- taking the first request out matters only to entries with the same key
    constructor
    · rintro ⟨hfirst,hnodup,hrest⟩
      have hne : ∀ e' ∈ es, e'.request.key≠e.request.key := by
        intro e' he' heq
        have hfound := hrest e' he'
        rw [findInUnorderedReqs_after,if_pos heq] at hfound
        cases hfound
      refine ⟨⟨?_,hnodup⟩,hfirst,fun e' he' => ?_⟩
      · intro hmem
        obtain ⟨e',he',heq⟩ := mem_map.mp hmem
        exact hne e' he' heq
      · have hfound := hrest e' he'
        rwa [findInUnorderedReqs_after,if_neg (hne e' he')] at hfound
    · rintro ⟨⟨hnotin,hnodup⟩,hfirst,hrest⟩
      refine ⟨hfirst,hnodup,fun e' he' => ?_⟩
      have hne : e'.request.key≠e.request.key := fun heq =>
        hnotin (mem_map.mpr ⟨e',he',heq⟩)
      rw [findInUnorderedReqs_after,if_neg hne]
      exact hrest e' he'

theorem readByte_parses (v : Nat) : Reads (readNet 1) (beBytes 1 v) (v%256) := readNet_parses 1 v

theorem readLong_parses {v : Nat} (h : v<2^32) : Reads (readNet 4) (beBytes 4 v) v := by
  have hparses := readNet_parses 4 v
  rwa [Nat.mod_eq_of_lt (show v<256^4 from h)] at hparses

theorem readUnset_parses : ∃ v, Reads (readNet n) (unset junk start n) v :=
  ⟨_,(readBytes_parses (length_unset junk start n)).map ofBe⟩

theorem readGenericReqHeader_parses {idx : Nat} (h : idx<2^32) (term : Nat) :
    Reads readGenericReqHeader (genericReqHeader idx term) (idx,term%256) := by
  refine (readLong_parses h).bind ?_
  exact (readByte_parses term).bind_pure _

theorem readAppendEntriesRep_parses (term : Nat) {bs₁ bs₂ bs₃ bs₄ : List Byte} {success currentIdx firstIdx done : Nat}
    (hsuccess : Reads (readNet 1) bs₁ success) (hcurrent : Reads (readNet 4) bs₂ currentIdx)
    (hfirst : Reads (readNet 4) bs₃ firstIdx) (hdone : Reads (readNet 4) bs₄ done) :
    Reads (readAppendEntriesRep term) (bs₁++(bs₂++(bs₃++bs₄))) (⟨term,success,currentIdx,firstIdx⟩,done) := by
  refine hsuccess.bind ?_
  refine hcurrent.bind ?_
  refine hfirst.bind ?_
  exact hdone.bind_pure _
section Process
variable {build : Build} {recv : Receiver} {msgType : Nat} {fromId : Byte} {bytes xs : List Byte}
  {term : Nat}

theorem raftProcessMsg_yields (htype : msgType<256) (hterm : Reads (readNet 1) bytes term) {o : Option Handed}
    (h : Yields view (raftProcessBody build recv msgType fromId term) xs o) :
    Yields view (raftProcessMsg build recv) (genericHeader msgType fromId bytes++xs) o := by
  have hread := readByte_parses msgType
  rw [Nat.mod_eq_of_lt htype] at hread
  refine hread.bind_yields ?_
  refine (readWord_parses (by decide) fromId).bind_yields ?_
  exact hterm.bind_yields h

end Process

@[local simp] def AppendEntries.map {α β : Type} (f : α → β) (m : AppendEntries α) : AppendEntries β :=
  ⟨m.term,m.prevLogIdx,m.prevLogTerm,m.leaderCommit,m.nEntries,m.entries.map f⟩

def RaftMsg.handed (self : Peer) : RaftMsg → Handed
  | voteRequest m => .recvRequestvote m.candidateId m
  | voteReply m => .recvRequestvoteResponse self.localRaftId m
  | appendEntriesReq m => .recvAppendentries self.localRaftId (m.map toRaftEntry)
  | appendEntriesRep m => .recvAppendentriesResponse self.localRaftId m self.done.toNat
  | announceCommitReq m => .recvAppendentries self.localRaftId (m.map toRaftEntry)
  | announceCommitRep => .setPeerDone self.localRaftId self.done.toNat
  | recoveryReq m => .getEntryFromIdx (m.currentIdx+1)
  | recoveryRep m => .addToUnorderedReqs (m.entries.map fun e => e.request.toR2p2Msg)
variable (build : Build)
def iovCount (es : List LogEntry) : Nat :=
  match build with
  | .vanilla => (es.map fun e => e.request.packets.length+2).sum
  | .accelerated | .switchAgg => 2*es.length
variable (m : AppendEntries LogEntry)
def AppendEntries.Fits : Prop :=
  m.term<2^32 ∧ m.prevLogIdx<2^32 ∧ m.prevLogTerm<2^32 ∧ m.leaderCommit<2^32 ∧
    m.nEntries=m.entries.length ∧ m.entries.length≤1024

def AppendEntriesResponse.Fits (m : AppendEntriesResponse) : Prop :=
  m.term<2^32 ∧ m.currentIdx<2^32 ∧ m.firstIdx<2^32

/-- The messages that a build sends.  The entries leave room for the header in the 2048
`iovec`s. -/
def RaftMsg.Fits (build : Build) : RaftMsg → Prop
  | voteRequest m => m.term<2^32 ∧ m.lastLogIdx<2^32 ∧ m.lastLogTerm<2^32
  | voteReply m => m.term<2^32
  | appendEntriesReq m => m.Fits ∧ iovCount build m.entries<2048
  | appendEntriesRep m => m.Fits
  | announceCommitReq m => m.Fits
  | announceCommitRep => True
  | recoveryReq m => m.Fits ∧ build≠.vanilla
  | recoveryRep m => m.Fits ∧ build≠.vanilla

def EntriesArrive (recv : Receiver) (m : AppendEntries LogEntry) : Prop :=
  match build with
  | .vanilla => ∀ e ∈ m.entries, e.request.packets.length=1
  | .accelerated => RequestsPresent recv.unordered m.entries
  | .switchAgg => m.entries=[] ∨ m.prevLogIdx ≤ recv.currentIdx ∧ RequestsPresent recv.unordered m.entries

def RaftMsg.SafeOnWire (recv : Receiver) : RaftMsg → Prop
  | voteRequest m => m.term<256 ∧ m.lastLogTerm<256
  | voteReply m => m.term<256 ∧ 0 ≤ m.voteGranted ∧ m.voteGranted<256
  | appendEntriesReq m => m.term<256 ∧ m.prevLogTerm<256 ∧ EntriesArrive build recv m
  | appendEntriesRep m => m.term<256 ∧ 0 ≤ m.success ∧ m.success<256
  | announceCommitReq m => m.term<256 ∧ m.prevLogTerm<256 ∧ m.entries=[]
  | announceCommitRep => True
  | recoveryReq _ => True
  | recoveryRep m => ∃ e, m.entries=[e] ∧ e.request.packets.length=1

theorem mod_eq_self_iff {v : Nat} : v%256=v ↔ v<256 := Nat.mod_eq_iff_lt (by decide)
theorem flag_eq_self_iff {flag : Int} : (((flag%256).toNat%256 : Nat) : Int)=flag ↔ 0≤flag ∧ flag<256 := by omega

def aeHeader : List Byte :=
  genericReqHeader m.prevLogIdx m.prevLogTerm++appendEntriesReqHeader m.leaderCommit m.nEntries

theorem readAppendEntries_parses {α : Type} {m : AppendEntries LogEntry} (h : m.Fits) (term : Nat) :
    Reads (readAppendEntries (α := α) term) (aeHeader m)
      ⟨term,m.prevLogIdx,m.prevLogTerm%256,m.leaderCommit,m.nEntries,[]⟩ := by
  obtain ⟨-,hidx,-,hcommit,hn,hlen⟩ := h
  refine (readGenericReqHeader_parses hidx m.prevLogTerm).bind ?_
  refine (readLong_parses hcommit).bind ?_
  exact (readLong_parses (by omega)).bind_pure _

def entriesIov (junk : Nat → Byte) (es : List LogEntry) : List (List Byte) :=
  match build with
  | .vanilla => entriesToIov (fun i => junk (64+i)) es
  | .accelerated | .switchAgg => entriesToIovAccel es

theorem length_entriesToIov : (entriesToIov junk es).length=iovCount .vanilla es := by
  induction es generalizing junk with
  | nil => rfl
  | cons e es ih =>
    simp only [entriesToIov,entryIov,length_append,length_cons,length_map,ih,iovCount,map_cons,sum_cons]

theorem length_entriesToIovAccel : (entriesToIovAccel es).length=2*es.length := by
  induction es with
  | nil => rfl
  | cons e es ih =>
    rw [entriesToIovAccel,flatMap_cons,length_append]
    show 2+(entriesToIovAccel es).length=_
    rw [ih,length_cons]
    omega
section RoundTrip
variable {build : Build} {self : Peer} {recv : Receiver} {junk : Nat → Byte} {pair : Bool}
  {rid : BitVec 16}

def RoundTrips (build : Build) (self : Peer) (recv : Receiver) (junk : Nat → Byte) (pair : Bool)
    (rid : BitVec 16) (msg : RaftMsg) : Prop :=
  (sendRaftMsg build self junk pair rid msg).bind (raftProcess build recv)=some (msg.handed self)
variable {iov : List (List Byte)} {msg : RaftMsg}
section
variable (hiov : raftIov build self junk msg=some iov)
include hiov
theorem RoundTrips.iff_of_yields {msgType term : Nat} {fromId : Byte} {bytes xs rest : List Byte}
    {o : Option Handed} (htype : msgType<256) (hterm : Reads (readNet 1) bytes term)
    (h : Yields view (raftProcessBody build recv msgType fromId term) xs o)
    (hbytes : iov.flatten=genericHeader msgType fromId bytes++xs++rest) :
    RoundTrips build self recv junk pair rid msg ↔ o=some (msg.handed self) := by
  have hresult : (sendRaftMsg build self junk pair rid msg).bind (raftProcess build recv)=o := by
    rw [sendRaftMsg,hiov]
    apply (raftProcessMsg_yields htype hterm h).result
    rw [view_gbufferReaderInit,flatten_r2p2PrepareMsg]
    exact hbytes
  rw [RoundTrips,hresult]

theorem RoundTrips.iff_of_body {msgType term : Nat} {fromId : Byte} {bytes xs : List Byte} (htype : msgType<256)
    (hterm : Reads (readNet 1) bytes term) {a : Handed} (h : Reads (raftProcessBody build recv msgType fromId term) xs a)
    (hbytes : iov.flatten=genericHeader msgType fromId bytes++xs) :
    RoundTrips build self recv junk pair rid msg ↔ a=msg.handed self := by
  rw [← append_nil (_++xs)] at hbytes
  rw [RoundTrips.iff_of_yields hiov htype hterm (o := some a) h hbytes,some_inj]
end

theorem voteRequest_roundTrips_iff {m : RequestVote} (h : m.lastLogIdx<2^32) :
    RoundTrips build self recv junk pair rid (.voteRequest m) ↔ m.term<256 ∧ m.lastLogTerm<256 := by
  have hbody : Reads (raftProcessBody build recv 0 m.candidateId (m.term%256))
      (genericReqHeader m.lastLogIdx m.lastLogTerm) (.recvRequestvote m.candidateId
        ⟨m.term%256,m.candidateId,m.lastLogIdx,m.lastLogTerm%256⟩) :=
    (readGenericReqHeader_parses h m.lastLogTerm).bind_pure _
  rw [RoundTrips.iff_of_body rfl (by decide) (readByte_parses m.term) hbody rfl]
  obtain ⟨term,candidateId,lastLogIdx,lastLogTerm⟩ := m
  simp [handed]

theorem voteReply_roundTrips_iff {m : RequestVoteResponse} : RoundTrips build self recv junk pair rid (.voteReply m) ↔
      m.term<256 ∧ 0 ≤ m.voteGranted ∧ m.voteGranted<256 := by
  have hbody : Reads (raftProcessBody build recv 1 self.localRaftId (m.term%256))
      (beBytes 1 (m.voteGranted%256).toNat) (.recvRequestvoteResponse self.localRaftId
        ⟨m.term%256,((m.voteGranted%256).toNat%256 : Nat)⟩) := by
    simp only [raftProcessBody]
    rw [if_neg fun hswitch => self.ne_switch hswitch.2]
    exact (readByte_parses _).bind_pure _
  rw [RoundTrips.iff_of_body rfl (by decide) (readByte_parses m.term) hbody rfl,handed,
    Handed.recvRequestvoteResponse.injEq]
  obtain ⟨term,voteGranted⟩ := m
  rw [RequestVoteResponse.mk.injEq,mod_eq_self_iff,flag_eq_self_iff]
  simp

theorem appendEntriesRep_roundTrips_iff {m : AppendEntriesResponse} (h : m.Fits) :
    RoundTrips build self recv junk pair rid (.appendEntriesRep m) ↔ m.term<256 ∧ 0 ≤ m.success ∧ m.success<256 := by
  obtain ⟨-,hcurrent,hfirst⟩ := h
  have hbody : Reads (raftProcessBody build recv 3 self.localRaftId (m.term%256))
      (appendEntriesRepHeader m (beBytes 4 self.done.toNat))
      (.recvAppendentriesResponse self.localRaftId ⟨m.term%256,
        ((m.success%256).toNat%256 : Nat),m.currentIdx,m.firstIdx⟩ self.done.toNat) :=
    (readAppendEntriesRep_parses _ (readByte_parses _) (readLong_parses hcurrent)
      (readLong_parses hfirst) (readLong_parses self.done.isLt)).bind_pure _
  rw [RoundTrips.iff_of_body rfl (by decide) (readByte_parses m.term) hbody rfl,handed,
    Handed.recvAppendentriesResponse.injEq]
  obtain ⟨term,success,currentIdx,firstIdx⟩ := m
  rw [AppendEntriesResponse.mk.injEq,mod_eq_self_iff,flag_eq_self_iff]
  simp
variable {m : AppendEntries LogEntry}
theorem announceCommitReq_roundTrips_iff (h : m.Fits) :
    RoundTrips build self recv junk pair rid (.announceCommitReq m) ↔
      m.term<256 ∧ m.prevLogTerm<256 ∧ m.entries=[] := by
  have hbody : Reads (raftProcessBody build recv 5 self.localRaftId (m.term%256)) (aeHeader m)
      (.recvAppendentries self.localRaftId ⟨m.term%256,m.prevLogIdx,m.prevLogTerm%256,
        m.leaderCommit,m.nEntries,[]⟩) :=
    (readAppendEntries_parses h _).bind_pure _
  rw [RoundTrips.iff_of_body rfl (by decide) (readByte_parses m.term) hbody rfl]
  simp [handed]

theorem announceCommitRep_roundTrips : RoundTrips build self recv junk pair rid .announceCommitRep := by
  obtain ⟨term,hterm⟩ := readUnset_parses junk 0 1
  obtain ⟨success,hsuccess⟩ := readUnset_parses junk 1 1
  obtain ⟨currentIdx,hcurrent⟩ := readUnset_parses junk 2 4
  obtain ⟨firstIdx,hfirst⟩ := readUnset_parses junk 6 4
  have hbody : Reads (raftProcessBody build recv 6 self.localRaftId term)
      (unset junk 1 1++(unset junk 2 4++(unset junk 6 4++beBytes 4 self.done.toNat)))
      (.setPeerDone self.localRaftId self.done.toNat) :=
    (readAppendEntriesRep_parses _ hsuccess hcurrent hfirst (readLong_parses self.done.isLt)).bind_pure _
  exact (RoundTrips.iff_of_body rfl (by decide) hterm hbody rfl).mpr rfl

theorem recoveryReq_roundTrips {m : AppendEntriesResponse} (h : m.Fits) (hbuild : build≠.vanilla) :
    RoundTrips build self recv junk pair rid (.recoveryReq m) := by
  obtain ⟨-,hcurrent,hfirst⟩ := h
  obtain ⟨done,hdone⟩ := readUnset_parses junk 0 4
  have hiov : raftIov build self junk (.recoveryReq m) = some [genericHeader 7 self.localRaftId (beBytes 1 m.term) ++
        appendEntriesRepHeader m (unset junk 0 4)] := by
    cases build with
    | vanilla => exact absurd rfl hbuild
    | accelerated | switchAgg => rfl
  have hbody : Reads (raftProcessBody build recv 7 self.localRaftId (m.term%256))
      (appendEntriesRepHeader m (unset junk 0 4)) (.getEntryFromIdx (m.currentIdx+1)) := by
    simp only [raftProcessBody]
    rw [if_neg hbuild]
    exact (readAppendEntriesRep_parses _ (readByte_parses _) (readLong_parses hcurrent)
      (readLong_parses hfirst) hdone).bind_pure _
  exact (RoundTrips.iff_of_body hiov (by decide) (readByte_parses m.term) hbody rfl).mpr rfl

theorem flatten_appendEntriesHeaders (msgType : Nat) (fromId : Byte) (m : AppendEntries LogEntry)
    (entries : List (List Byte)) :
    (appendEntriesHeaders msgType fromId m::entries).flatten = genericHeader msgType fromId (beBytes 1 m.term) ++
        (aeHeader m++entries.flatten) := by
  simp [flatten_cons,appendEntriesHeaders,aeHeader,append_assoc]

theorem recoveryRep_body (h : m.Fits) (hbuild : build≠.vanilla) :
    Yields view (raftProcessBody build recv 8 self.localRaftId (m.term%256))
      (aeHeader m++(entriesToIov junk m.entries).flatten)
      (if m.entries.map (·.request.packets.length)=[1] then some ((RaftMsg.recoveryRep m).handed self) else none) := by
  simp only [raftProcessBody]
  rw [if_neg hbuild]
  refine (readAppendEntries_parses h (m.term%256)).bind_yields ?_
  rw [h.2.2.2.2.1]
  by_cases hn : m.entries.length=1
  · obtain ⟨e,he⟩ := length_eq_one_iff.mp hn
    have hentry := (msgToEntry_yields junk e).bind_pure fun e => Handed.addToUnorderedReqs e.buf.toList
    rw [apply_ite (Option.map _)] at hentry
    simpa [he,entriesToIov,handed,toRaftEntry] using hentry
  · have hnot : m.entries.map (·.request.packets.length)≠[1] := fun heq => hn (by simpa using congrArg length heq)
    rw [if_pos hn,if_neg hnot]
    exact Fails.failure _

theorem recoveryRep_roundTrips_iff (h : m.Fits) (hbuild : build≠.vanilla) :
    RoundTrips build self recv junk pair rid (.recoveryRep m) ↔ ∃ e, m.entries=[e] ∧ e.request.packets.length=1 := by
  have hiov : raftIov build self junk (.recoveryRep m) = some (appendEntriesHeaders 8 self.localRaftId m ::
        entriesToIov (fun i => junk (64+i)) m.entries) := by
    cases build with
    | vanilla => exact absurd rfl hbuild
    | accelerated | switchAgg => rfl
  have hbytes := (flatten_appendEntriesHeaders 8 self.localRaftId m
    (entriesToIov (fun i => junk (64+i)) m.entries)).trans (append_nil _).symm
  rw [RoundTrips.iff_of_yields hiov (by decide) (readByte_parses m.term) (recoveryRep_body h hbuild) hbytes,
    ← map_eq_singleton_iff]
  split_ifs with hsingle <;> simp [hsingle]

theorem raftIov_appendEntriesReq (h : iovCount build m.entries<2048) : raftIov build self junk (.appendEntriesReq m) =
      some (appendEntriesHeaders 2 self.localRaftId m::entriesIov build junk m.entries) := by
  have hlen : (entriesIov build junk m.entries).length=iovCount build m.entries := by
    cases build with
    | vanilla => exact length_entriesToIov _ _
    | accelerated | switchAgg => exact length_entriesToIovAccel _
  have hle : (entriesIov build junk m.entries).length≤2048 := by omega
  cases build with
  | vanilla | accelerated | switchAgg => exact if_pos hle

def asRead (m : AppendEntries LogEntry) (es : List RaftEntry) : AppendEntries RaftEntry :=
  ⟨m.term%256,m.prevLogIdx,m.prevLogTerm%256,m.leaderCommit,m.nEntries,es⟩

theorem appendEntriesReq_iff (h : m.Fits) (hcount : iovCount build m.entries<2048) {xs rest : List Byte}
    {o : Option (AppendEntries RaftEntry)}
    (hentries : Yields view (processAeReq build recv (asRead m [])) xs o)
    (hxs : (entriesIov build junk m.entries).flatten=xs++rest) :
    RoundTrips build self recv junk pair rid (.appendEntriesReq m) ↔ o=some (m.map toRaftEntry) := by
  have hbody : Yields view (raftProcessBody build recv 2 self.localRaftId (m.term%256)) (aeHeader m++xs)
      (o.map (.recvAppendentries self.localRaftId)) := by
    refine (readAppendEntries_parses h (m.term%256)).bind_yields ?_
    exact hentries.bind_pure _
  have hbytes := flatten_appendEntriesHeaders 2 self.localRaftId m (entriesIov build junk m.entries)
  rw [hxs,← append_assoc,← append_assoc,append_assoc _ _ xs] at hbytes
  rw [RoundTrips.iff_of_yields (raftIov_appendEntriesReq hcount) (by decide) (readByte_parses m.term) hbody hbytes]
  simp [handed]

theorem asRead_eq_map_iff {es : List RaftEntry} : asRead m es=m.map toRaftEntry ↔
    m.term<256 ∧ m.prevLogTerm<256 ∧ es=m.entries.map toRaftEntry := by
  simp [asRead]

theorem appendEntriesReq_vanilla_iff (h : m.Fits) (hcount : iovCount .vanilla m.entries<2048) :
    RoundTrips .vanilla self recv junk pair rid (.appendEntriesReq m) ↔
      m.term<256 ∧ m.prevLogTerm<256 ∧ ∀ e ∈ m.entries, e.request.packets.length=1 := by
  have hread := msgToEntries_yields (fun i => junk (64+i)) m.entries
  rw [← h.2.2.2.2.1] at hread
  rw [appendEntriesReq_iff h hcount (hread.map (asRead m)) (append_nil _).symm]
  split_ifs with hall
  · rw [map_some,some_inj,asRead_eq_map_iff]
    simp [and_true,iff_true_intro hall]
  · simp [hall]

theorem appendEntriesReq_accel_iff (h : m.Fits) (hcount : iovCount build m.entries<2048)
    (haccel : build=.accelerated ∨ build=.switchAgg ∧ ¬recv.currentIdx < m.prevLogIdx) :
    RoundTrips build self recv junk pair rid (.appendEntriesReq m) ↔
      m.term<256 ∧ m.prevLogTerm<256 ∧ RequestsPresent recv.unordered m.entries := by
  have hread := msgToEntriesAccel_parses recv.unordered m.entries
  rw [← h.2.2.2.2.1] at hread
  have hentries : Reads (processAeReq build recv (asRead m [])) (entriesIov build junk m.entries).flatten
      (asRead m (fetchEntries recv.unordered m.entries)) := by
    rcases haccel with rfl | ⟨rfl,hidx⟩
    · exact hread.map (asRead m)
    · rw [processAeReq,if_neg (show ¬recv.currentIdx<(asRead m []).prevLogIdx from hidx)]
      exact hread.map (asRead m)
  rw [appendEntriesReq_iff h hcount (o := some _) hentries (append_nil _).symm,some_inj,asRead_eq_map_iff,
    fetchEntries_eq_iff]

theorem appendEntriesReq_kept_iff (h : m.Fits)
    (hcount : iovCount .switchAgg m.entries<2048) (hidx : recv.currentIdx < m.prevLogIdx) :
    RoundTrips .switchAgg self recv junk pair rid (.appendEntriesReq m) ↔
      m.term<256 ∧ m.prevLogTerm<256 ∧ m.entries=[] := by
  have hentries : Reads (processAeReq .switchAgg recv (asRead m [])) []
      ⟨m.term%256,m.prevLogIdx,m.prevLogTerm%256,m.leaderCommit,0,[]⟩ := by
    rw [processAeReq,if_pos (show recv.currentIdx<(asRead m []).prevLogIdx from hidx)]
    exact pure _
  rw [appendEntriesReq_iff h hcount (o := some _) hentries (nil_append _).symm,some_inj,AppendEntries.map,
    AppendEntries.mk.injEq,h.2.2.2.2.1]
  simp only [true_and,mod_eq_self_iff]
  constructor
  · rintro ⟨hterm,hprev,hzero,-⟩
    exact ⟨hterm,hprev,length_eq_zero_iff.mp hzero.symm⟩
  · rintro ⟨hterm,hprev,hnil⟩
    simp [hterm,hprev,hnil]

theorem appendEntriesReq_roundTrips_iff (h : m.Fits) (hcount : iovCount build m.entries<2048) :
    RoundTrips build self recv junk pair rid (.appendEntriesReq m) ↔
      m.term<256 ∧ m.prevLogTerm<256 ∧ EntriesArrive build recv m := by
  cases build with
  | vanilla => exact appendEntriesReq_vanilla_iff h hcount
  | accelerated => exact appendEntriesReq_accel_iff h hcount (.inl rfl)
  | switchAgg =>
    by_cases hidx : recv.currentIdx < m.prevLogIdx
    · rw [appendEntriesReq_kept_iff h hcount hidx,EntriesArrive]
      have hnot : ¬m.prevLogIdx ≤ recv.currentIdx := by omega
      simp [hnot]
    · rw [appendEntriesReq_accel_iff h hcount (.inr ⟨rfl,hidx⟩),EntriesArrive]
      have hle : m.prevLogIdx ≤ recv.currentIdx := by omega
      have hempty : m.entries=[] → RequestsPresent recv.unordered m.entries := by
        intro hnil
        simp [hnil]
      tauto

/-- For every message that a build sends, and whatever the bytes that the sender leaves unset:
the receiver hands over the same message exactly if it is safe on the wire. -/
theorem sendRaftMsg_roundTrips_iff (build : Build) (self : Peer) (recv : Receiver)
    (junk : Nat → Byte) (pair : Bool) (rid : BitVec 16) (msg : RaftMsg) (h : msg.Fits build) :
    RoundTrips build self recv junk pair rid msg ↔ msg.SafeOnWire build recv := by
  cases msg with
  | voteRequest m => exact voteRequest_roundTrips_iff h.2.1
  | voteReply m => exact voteReply_roundTrips_iff
  | appendEntriesReq m => exact appendEntriesReq_roundTrips_iff h.1 h.2
  | appendEntriesRep m => exact appendEntriesRep_roundTrips_iff h
  | announceCommitReq m => exact announceCommitReq_roundTrips_iff h
  | announceCommitRep => exact iff_of_true announceCommitRep_roundTrips trivial
  | recoveryReq m => exact iff_of_true (recoveryReq_roundTrips h.1 h.2) trivial
  | recoveryRep m => exact recoveryRep_roundTrips_iff h.1 h.2
end RoundTrip

/-- The term of the wire header has one byte: a candidate of term 256 asks for votes in term 0. -/
theorem voteRequest_term_truncated :
    (sendRaftMsg .vanilla ⟨1,0,by decide⟩ (fun _ => 0) false 7 (.voteRequest ⟨256,1,5,2⟩)).bind
      (raftProcess .vanilla ⟨[],0⟩)=some (.recvRequestvote 1 ⟨0,1,5,2⟩) := by
  decide +kernel

def smallRequest : Request :=
  .prepared ⟨0x0A000001,5000⟩ [[0x61,0x62]] (by decide) .replicatedRoute 3 (by decide +kernel)

def smallAppend : AppendEntries LogEntry := ⟨3,10,2,9,1,[⟨⟨3,1,0,0⟩,smallRequest⟩]⟩

theorem smallAppend_roundTrips :
    RoundTrips .vanilla ⟨1,0,by decide⟩ ⟨[],0⟩ (fun _ => 0) false 7 (.appendEntriesReq smallAppend) :=
  (sendRaftMsg_roundTrips_iff .vanilla _ _ _ _ _ (.appendEntriesReq smallAppend)
    ⟨by simp [AppendEntries.Fits,smallAppend],by decide +kernel⟩).mpr
    ⟨by decide,by decide,fun e he => by
      rw [mem_singleton.mp he]
      decide +kernel⟩
end P4Benchmarks.R2p2
