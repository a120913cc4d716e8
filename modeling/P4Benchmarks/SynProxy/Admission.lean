import P4Benchmarks.SynProxy.Controller
/-! # Which clients the SYN proxy admits -/
namespace P4Benchmarks.SynProxy
open List State FiveTuple
variable {H : HashUnits} {ipv4Lpm : Ipv4Lpm} {fs : List Frame} {seg : Segment}
def Verified (H : HashUnits) (fs : List Frame) (addr : BitVec 32) (port : BitVec 16) : Prop :=
  ∃ f ∈ fs, ∃ q, myParser f=.tcp q ∧ q.ReturnsCookie H ∧ q.ipv4.srcAddr=addr ∧ q.tcp.srcPort=port

/-- `f` is a segment `seg` of a client that has not been verified, neither by the packets `fs`
before nor by `f` itself. -/
structure FromStranger (H : HashUnits) (fs : List Frame) (f : Frame) (seg : Segment) : Prop where
  parsed : myParser f=.tcp seg
  client : seg.ipv4.srcAddr≠serverAddress
  unverified : ¬ Verified H (fs++[f]) seg.ipv4.srcAddr seg.tcp.srcPort

def Refused (seg : Segment) (output : Option (BitVec 9 × Headers)) : Prop :=
  output=none ∨ ∃ port reply, output=some (port,.tcp reply) ∧ reply.Answers seg

def AdmitsOnlyVerified (H : HashUnits) (ipv4Lpm : Ipv4Lpm) (es : List Event) : Prop :=
  ∀ pre f post seg, es=pre ++ .packet f::post → FromStranger H (frames pre) f seg →
    Refused seg ((init.run H ipv4Lpm pre).ingress H ipv4Lpm f).output

/-- No unverified client sends a SYN-ACK, or a segment whose connection hash an earlier SYN-ACK
may have brought into the table. -/
def Guarded (H : HashUnits) (fs : List Frame) : Prop :=
  ∀ pre f post seg, fs=pre++f::post → FromStranger H pre f seg →
    ¬ seg.IsSynAck ∧ ¬ Sourced H pre (H.connectionHash seg.fiveTuple)

theorem FromStranger.not_returnsCookie {f : Frame} (h : FromStranger H fs f seg) :
    ¬ seg.ReturnsCookie H := fun hcookie =>
  h.unverified ⟨f,mem_append_right fs (mem_singleton_self f),seg,h.parsed,hcookie,rfl,rfl⟩
variable {connections : Connections}
theorem refused_of_lookup_eq_none (hlookup : connections.lookup (H.connectionHash seg.fiveTuple)=none)
    (hsynAck : ¬ seg.IsSynAck) (hcookie : ¬ seg.ReturnsCookie H) :
    Refused seg (myIngress H ipv4Lpm connections (.tcp seg)).output := by
  have happly := applyTcp_of_lookup_eq_none hlookup
  cases hreturned : (applyTcp H connections seg).returned with
  | true => exact .inl (output_of_returned hreturned)
  | false =>
    have hanswer : (applyTcp H connections seg).seg=createSynCookiePacket H seg := by
      rw [happly] at hreturned ⊢
      obtain h | h := handshake_of_not_returnsCookie hsynAck hcookie
      · exact absurd (hreturned.symm.trans h) Bool.false_ne_true
      · exact h
    rw [output_of_not_returned hreturned rfl]
    split_ifs
    · exact .inl rfl
    · rw [hanswer]
      exact .inr ⟨_,_,rfl,createSynCookiePacket_answers _ H seg⟩

theorem lookup_eq_none_of_not_sourced {s : State} {key : BitVec 32} (h : Accounted H fs s)
    (hkey : ¬ Sourced H fs key) : s.connections.lookup key=none := by
  rw [lookup_eq_none_iff]
  intro entry hentry
  have hne : key≠entry.1 := fun heq => hkey (heq ▸ h.connections entry hentry)
  simpa using hne

theorem admitsOnlyVerified_of_guarded {es : List Event} (h : Guarded H (frames es)) :
    AdmitsOnlyVerified H ipv4Lpm es := by
  rintro pre f post seg rfl hstranger
  rw [frames_append,frames_packet_cons] at h
  obtain ⟨hsynAck,hsourced⟩ := h (frames pre) f (frames post) seg rfl hstranger
  unfold ingress
  rw [hstranger.parsed]
  exact refused_of_lookup_eq_none (lookup_eq_none_of_not_sourced (accounted_run H ipv4Lpm pre) hsourced) hsynAck
    hstranger.not_returnsCookie

def Frame.isSynAck (f : Frame) : Bool :=
  match myParser f with
  | .tcp q => decide q.IsSynAck
  | _ => false

/-- Traffic that the switch has routes for, between different hosts, with few enough SYN-ACKs for
the table to hold all that the controller learns. -/
structure Plain (ipv4Lpm : Ipv4Lpm) (fs : List Frame) : Prop where
  routes : ∀ f ∈ fs, ∀ seg, myParser f=.tcp seg → (ipv4Lpm seg.ipv4.srcAddr).Routes ∧ (ipv4Lpm seg.ipv4.dstAddr).Routes
  ends : ∀ f ∈ fs, ∀ seg, myParser f=.tcp seg → seg.ipv4.srcAddr≠seg.ipv4.dstAddr
  fits : 2*fs.countP Frame.isSynAck ≤ connectionsSize
section
variable (H : HashUnits) (ipv4Lpm : Ipv4Lpm)
def learned (f : Frame) : List TableAdd := (init.ingress H ipv4Lpm f).digests.flatMap recvMsgDigest

theorem learned_of_isSynAck {f : Frame} {q : Segment} (hparsed : myParser f=.tcp q) (hsynAck : q.IsSynAck) :
    ∃ d d', learned H ipv4Lpm f = [⟨H.connectionHash q.fiveTuple,d⟩,⟨H.connectionHash q.fiveTuple.reverse,d'⟩] := by
  unfold learned ingress
  rw [hparsed,myIngress_tcp_digests,applyTcp_of_lookup_eq_none rfl,handshake_of_isSynAck hsynAck]
  exact ⟨_,_,rfl⟩

theorem learned_of_not_isSynAck {f : Frame} (h : f.isSynAck=false) : learned H ipv4Lpm f=[] := by
  apply eq_nil_iff_forall_not_mem.mpr
  intro a ha
  obtain ⟨d,hd,ha⟩ := mem_flatMap.mp ha
  obtain ⟨g,hg,q,hparsed,hsynAck,-⟩ := sourced_of_mem_ingress H ipv4Lpm .init f hd ha
  cases mem_singleton.mp hg
  rw [Frame.isSynAck,hparsed] at h
  exact of_decide_eq_false h hsynAck
variable (fs : List Frame)
theorem length_flatMap_learned_le : (fs.flatMap (learned H ipv4Lpm)).length≤2*fs.countP Frame.isSynAck := by
  induction fs with
  | nil => exact Nat.le_refl _
  | cons f fs ih =>
    rw [flatMap_cons,length_append,countP_cons]
    cases h : f.isSynAck with
    | false =>
      rw [learned_of_not_isSynAck H ipv4Lpm h]
      simpa using ih
    | true =>
      have hlen : (learned H ipv4Lpm f).length=2 := by
        unfold Frame.isSynAck at h
        split at h
        · next q hparsed =>
          obtain ⟨d,d',hlearned⟩ := learned_of_isSynAck H ipv4Lpm hparsed (of_decide_eq_true h)
          rw [hlearned]
          rfl
        · exact absurd h Bool.false_ne_true
      rw [hlen,if_pos rfl]
      omega

def settle : List Event := fs.map .packet++drain (fs.flatMap fun f => (init.ingress H ipv4Lpm f).digests).length

theorem frames_settle : frames (settle H ipv4Lpm fs)=fs := by
  rw [settle,frames_append,frames_map_packet,frames_drain,append_nil]

theorem run_settle : (init.run H ipv4Lpm (settle H ipv4Lpm fs)).connections =
      (fs.flatMap (learned H ipv4Lpm)).foldl Connections.add [] := by
  rw [settle,run_append,run_map_packet,run_drain,flatMap_assoc]
  rfl
end

theorem lookup_run_settle (ipv4Lpm : Ipv4Lpm) (hfits : 2*fs.countP Frame.isSynAck ≤ connectionsSize) {key : BitVec 32}
    (hkey : Sourced H fs key) : ((init.run H ipv4Lpm (settle H ipv4Lpm fs)).connections.lookup key).isSome := by
  obtain ⟨f,hf,q,hparsed,hsynAck,hkey⟩ := hkey
  obtain ⟨d,d',hlearned⟩ := learned_of_isSynAck H ipv4Lpm hparsed hsynAck
  have hlen := length_flatMap_learned_le H ipv4Lpm fs
  have hall := Connections.lookup_foldl_add [] (fs.flatMap (learned H ipv4Lpm)) (by rw [length_nil]; omega)
  rw [← run_settle] at hall
  have hmem (a : TableAdd) (ha : a ∈ learned H ipv4Lpm f) := hall a (mem_flatMap.mpr ⟨f,hf,ha⟩)
  rw [hlearned] at hmem
  obtain rfl | rfl := hkey
  · exact hmem _ mem_cons_self
  · exact hmem _ (mem_cons_of_mem _ mem_cons_self)

theorem not_refused_of_isSynAck (hlookup : connections.lookup (H.connectionHash seg.fiveTuple)=none)
    (hsynAck : seg.IsSynAck) (hroutes : (ipv4Lpm seg.ipv4.srcAddr).Routes) :
    ¬ Refused seg (myIngress H ipv4Lpm connections (.tcp seg)).output := by
  have happly := (applyTcp_of_lookup_eq_none hlookup).trans (handshake_of_isSynAck hsynAck)
  have hseg := congrArg TcpResult.seg happly
  rw [output_of_not_returned (congrArg TcpResult.returned happly)
    (by rw [hseg]; rfl : _=ipv4Lpm seg.ipv4.srcAddr),if_neg hroutes,hseg]
  rintro (h | ⟨port,reply,h,hanswers⟩)
  · cases h
  · cases h
    exact absurd hanswers.syn Bool.false_ne_true

theorem not_refused_of_lookup_isSome (hlookup : (connections.lookup (H.connectionHash seg.fiveTuple)).isSome)
    (hends : seg.ipv4.srcAddr≠seg.ipv4.dstAddr) (hroutes : (ipv4Lpm seg.ipv4.dstAddr).Routes) :
    ¬ Refused seg (myIngress H ipv4Lpm connections (.tcp seg)).output := by
  obtain ⟨hreturned,htuple⟩ := applyTcp_of_lookup_isSome hlookup
  have hdst : (applyTcp H connections seg).seg.ipv4.dstAddr=seg.ipv4.dstAddr := congrArg dstAddr htuple
  rw [output_of_not_returned hreturned (congrArg ipv4Lpm hdst),if_neg hroutes]
  rintro (h | ⟨port,reply,h,hanswers⟩)
  · cases h
  · cases h
    have hreverse := hanswers.fiveTuple
    rw [LpmAction.fiveTuple_onSegment,htuple] at hreverse
    exact hends (congrArg srcAddr hreverse)

theorem guarded_of_admitsOnlyVerified (hplain : Plain ipv4Lpm fs)
    (h : ∀ es, frames es=fs → AdmitsOnlyVerified H ipv4Lpm es) : Guarded H fs := by
  rintro pre f post seg rfl hstranger
  have hmem : f ∈ pre++f::post := by simp
  obtain ⟨hsrc,hdst⟩ := hplain.routes f hmem seg hstranger.parsed
  refine ⟨fun hsynAck => ?_,fun hsourced => ?_⟩
  · -- the controller does nothing, and the SYN-ACK meets an empty table
    have hrefused := h ((pre++f::post).map .packet) (frames_map_packet _) (pre.map .packet) f
      (post.map .packet) seg (by rw [map_append,map_cons])
      (by rwa [frames_map_packet])
    rw [run_map_packet,ingress,hstranger.parsed] at hrefused
    exact not_refused_of_isSynAck rfl hsynAck hsrc hrefused
  · -- the controller learns all it can before the segment arrives
    have hrefused := h (settle H ipv4Lpm pre ++ .packet f::post.map .packet)
      (by rw [frames_append,frames_settle,frames_packet_cons,frames_map_packet])
      (settle H ipv4Lpm pre) f (post.map .packet) seg rfl (by rwa [frames_settle])
    rw [ingress,hstranger.parsed] at hrefused
    have hfits : 2*pre.countP Frame.isSynAck ≤ connectionsSize := by
      have hall := hplain.fits
      rw [countP_append] at hall
      omega
    exact not_refused_of_lookup_isSome (lookup_run_settle ipv4Lpm hfits hsourced)
      (hplain.ends f hmem seg hstranger.parsed) hdst hrefused

/-- Guarded traffic is safe however the controller's calls fall between the packets, and plain
traffic that is safe in this way is guarded. -/
theorem admitsOnlyVerified_iff_guarded (H : HashUnits) (ipv4Lpm : Ipv4Lpm) (fs : List Frame) :
    (Guarded H fs → ∀ es, frames es=fs → AdmitsOnlyVerified H ipv4Lpm es) ∧
    (Plain ipv4Lpm fs → (∀ es, frames es=fs → AdmitsOnlyVerified H ipv4Lpm es) → Guarded H fs) := by
  constructor
  · rintro hguarded es rfl
    exact admitsOnlyVerified_of_guarded hguarded
  · exact guarded_of_admitsOnlyVerified

def s1Commands : Ipv4Lpm := fun addr =>
  if addr=0x0A000101 then .ipv4Forward 0x00000A000101 1
  else if addr=0x0A000102 then .ipv4Forward 0x00000A000102 2
  else if addr=0x0A000103 then .ipv4Forward 0x00000A000103 3
  else .drop

def probeSegment (syn ack psh : Bool) : Segment where
  ethernet := ⟨0x00000A000103,0x00000A000101,typeIpv4⟩
  ipv4 := ⟨4,5,0,40,1,0,0,64,tcpProtocol,0x0A000101,serverAddress⟩
  tcp := ⟨4000,80,7,0,5,0,false,false,false,ack,psh,false,syn,false,512,0⟩

def probe (syn ack psh : Bool) : Frame :=
  ⟨(probeSegment syn ack psh).ethernet,(probeSegment syn ack psh).ipv4,(probeSegment syn ack psh).tcp⟩

private theorem probe_fromStranger (H : HashUnits) : FromStranger H [probe true true false] (probe false false true)
      (probeSegment false false true) where
  parsed := rfl
  client := by decide
  unverified := by
    rintro ⟨f,hf,q,hparsed,⟨hack,hsyn,-⟩,-⟩
    simp only [cons_append,nil_append,mem_cons,not_mem_nil,or_false] at hf
    obtain rfl | rfl := hf
    · cases hparsed
      cases hsyn
    · cases hparsed
      cases hack

private def portHash : HashUnits := ⟨fun _ port _ => port,fun t => (t.srcPort+t.dstPort).setWidth 32⟩
private def opening : List Event := [.packet (probe true true false),.receive,.call,.call]

/-- Whatever the hashes: a client opens its own way with a SYN-ACK. -/
private theorem opening_admits (H : HashUnits) :
    (∃ hdr, ((init.run H s1Commands opening).ingress H s1Commands (probe false false true)).output = some (3,hdr)) ∧
      ¬ AdmitsOnlyVerified H s1Commands (opening++[.packet (probe false false true)]) := by
  have hsourced : Sourced H [probe true true false] (H.connectionHash (probeSegment false false true).fiveTuple) :=
    ⟨_,mem_singleton_self _,probeSegment true true false,rfl,by decide,.inl rfl⟩
  have hlookup := lookup_run_settle s1Commands (by decide) hsourced
  constructor
  · obtain ⟨hreturned,htuple⟩ := applyTcp_of_lookup_isSome hlookup
    have haction := congrArg s1Commands (congrArg dstAddr htuple)
    exact ⟨_,(output_of_not_returned hreturned haction).trans (if_neg (by decide))⟩
  · intro h
    have hrefused := h opening (probe false false true) [] (probeSegment false false true) rfl (probe_fromStranger H)
    exact not_refused_of_lookup_isSome hlookup (by decide) (by decide) hrefused

/-- Once the controller has handled the digest of its SYN-ACK, the client's next segment goes out on
the server's port. -/
theorem probe_admitted :
    (∃ hdr, ((init.run portHash s1Commands opening).ingress portHash s1Commands (probe false false true)).output =
        some (3,hdr)) ∧
      ¬ AdmitsOnlyVerified portHash s1Commands (opening++[.packet (probe false false true)]) :=
  opening_admits portHash
end P4Benchmarks.SynProxy
