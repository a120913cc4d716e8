import Mathlib.Data.List.Perm.Basic
import P4Benchmarks.AquaFlow.Decoder
/-!
# Which batches the decoder recovers

The decoder takes `coded_index >= batch_idx` for "a coded packet of this batch was seen".  That is
wrong for slot 0 and after the slots start again.
-/
namespace P4Benchmarks.AquaFlow
open Lib List BitVec Register
attribute [local simp] read_write
inductive Kind where
  | a
  | b
  | x
deriving DecidableEq

def Kind.contents : Kind → BitVec 8
  | .a => codingA
  | .b => codingB
  | .x => codingX

/-- Two payloads and the order in which their packets arrive, at most one of the three missing. -/
structure Batch (w : Nat) where
  (a b : BitVec w)
  arrivals : List Kind
  nodup : arrivals.Nodup
  two_le : 2≤arrivals.length
variable {w : Nat} (batch : Batch w)
def Batch.payload : Kind → BitVec w
  | .a => batch.a
  | .b => batch.b
  | .x => batch.a^^^batch.b
variable (n : BitVec 32)
@[local simp] def header (k : Kind) (v : BitVec w) : CodingHdr w := ⟨1,k.contents,n,v⟩

def Batch.packets (n : Nat) : List (CodingHdr w) :=
  batch.arrivals.map fun k => header (.ofNat 32 n) k (batch.payload k)

def slot : BitVec 32 := n%.ofNat 32 decodingBufferSize
variable (junk : Unspecified) (regs : Registers w) (n : BitVec 32)
def Flagged : Prop := slot n ≤ regs.regCodedIndex.read junk 0

instance (regs : Registers w) (n : BitVec 32) : Decidable (Flagged junk regs n) :=
  inferInstanceAs (Decidable (_≤_))
variable {junk}
theorem slot_lt : (slot n).toNat<decodingBufferSize := by exact Nat.mod_lt _ (by decide)
variable (sent : List (Packet w))
def payloads : List (BitVec w) := sent.map fun p => p.hdr.packetPayload

@[local simp] def counted (k : Kind) (v : BitVec w) (num received : BitVec 32) : Packet w :=
  ⟨header n k v,⟨0,slot n,num,received⟩,0⟩

theorem noteCoded_counted (k : Kind) (v : BitVec w) (num : BitVec 32) : noteCoded junk regs (counted n k v num 0) =
      counted n k v num (if Flagged junk regs n then 1 else 0) := by
  by_cases h : Flagged junk regs n
  · rw [if_pos h]
    exact if_pos h
  · rw [if_neg h]
    exact if_neg h
variable (junk) in
def seen : BitVec 32 :=
  if n=regs.regRcvBatchNumPerIndex.read junk (slot n).toNat then
    regs.regPerBatchInputPacketNum.read junk (slot n).toNat
  else 0
variable (junk) in
def enter : Registers w :=
  { regs with
    regRcvBatchNumPerIndex := regs.regRcvBatchNumPerIndex.write (slot n).toNat n
    regPerBatchInputPacketNum := regs.regPerBatchInputPacketNum.write (slot n).toNat (seen junk regs n+1) }

theorem codingIngress_arriving (entries : Entries) (regs : Registers w) (n : BitVec 32) (k : Kind)
    (v : BitVec w) {num coded : BitVec 32} (hnum : seen junk regs n+1=num) {regs' : Registers w}
    (hregs : tableInputGathering entries (enter junk regs n) (counted n k v num 0)=regs')
    (hcoded : (if Flagged junk regs' n then 1 else 0)=coded) :
    codingIngress junk entries regs (.arriving (header n k v)) =
      (regs',tableIngressDecode junk entries regs' (counted n k v num coded)) := by
  subst hnum hregs hcoded
  have hslot := slot_lt n
  have hcount : countInput junk (claimSlot junk regs ⟨header n k v,⟨0,slot n,0,0⟩,0⟩) ⟨header n k v,⟨0,slot n,0,0⟩,0⟩ =
        (enter junk regs n,counted n k v (seen junk regs n+1) 0) := by
    by_cases h : n=regs.regRcvBatchNumPerIndex.read junk (slot n).toNat
    · have hwrite : regs.regRcvBatchNumPerIndex.write (slot n).toNat n =
          regs.regRcvBatchNumPerIndex := by
        nth_rewrite 2 [h]
        exact write_read hslot
      simp [claimSlot,countInput,enter,seen,← h,hwrite]
    · simp [claimSlot,countInput,enter,seen,h,hslot,
        write_write]
  rw [← noteCoded_counted]
  exact congrArg (fun q : Registers w × Packet w =>
    let regs := tableInputGathering entries q.1 q.2
    (regs,tableIngressDecode junk entries regs (noteCoded junk regs q.2))) hcount

def Packet.cloned (p : Packet w) : Packet w := { p with decoding := { p.decoding with isClone := 1 } }
variable {p : Packet w}
theorem codingEgress_forward (hstream : p.hdr.streamId=1)
    (hclone : p.decoding.isClone=0) : codingEgress s5Commands p=([],[p]) := by
  rw [codingEgress,hstream,hclone]
  rfl

theorem codingEgress_forwardClone (hstream : p.hdr.streamId=1) (hclone : p.decoding.isClone=2)
    (hport : p.egressSpec=1) : codingEgress s5Commands p=([.egress p.cloned],[p.cloned]) := by
  rw [codingEgress,hstream,hclone]
  obtain ⟨hdr,decoding,port⟩ := p
  obtain rfl : port=1 := hport
  rfl

theorem codingEgress_recirculate (hstream : p.hdr.streamId=1) :
    codingEgress s5Commands p.cloned=([.ingress p.cloned],[]) := by
  have hstream' : p.cloned.hdr.streamId=1 := hstream
  have hclone : p.cloned.decoding.isClone=1 := rfl
  rw [codingEgress,hstream',hclone]
  rfl
variable {regs regs' : Registers w}
theorem settle_dropped {entries : Entries} {p p' : Packet w} (h : codingIngress junk entries regs p=(regs',p'))
    (hdrop : p'.egressSpec=dropPort) (fuel : Nat) : settle junk entries (fuel+5) regs [.ingress p]=some (regs',[]) := by
  simp [settle,pass,h,hdrop]

theorem settle_forwarded {p p' : Packet w} (h : codingIngress junk s5Commands regs p=(regs',p'))
    (hport : p'.egressSpec=1) (hstream : p'.hdr.streamId=1) (hclone : p'.decoding.isClone=0) (fuel : Nat) :
    settle junk s5Commands (fuel+5) regs [.ingress p]=some (regs',[p']) := by
  simp [settle,pass,h,hport,dropPort,codingEgress_forward hstream hclone]
variable {regs regs' regs'' : Registers w}
theorem settle_cloned {p p' p'' : Packet w} (h : codingIngress junk s5Commands regs p=(regs',p'))
    (hport : p'.egressSpec=1) (hstream : p'.hdr.streamId=1) (hclone : p'.decoding.isClone=2)
    (h' : codingIngress junk s5Commands regs' p'.cloned=(regs'',p'')) (hport' : p''.egressSpec=1)
    (hstream' : p''.hdr.streamId=1) (hclone' : p''.decoding.isClone=0) (fuel : Nat) :
    settle junk s5Commands (fuel+5) regs [.ingress p]=some (regs'',[p'.cloned,p'']) := by
  simp [settle,pass,h,h',hport,hport',dropPort,
    codingEgress_forwardClone hstream hclone hport,codingEgress_recirculate hstream,
    codingEgress_forward hstream' hclone']

theorem seen_enter (regs : Registers w) (n : BitVec 32) : seen junk (enter junk regs n) n=seen junk regs n+1 := by
  have hslot := slot_lt n
  simp [seen,enter,hslot]
variable {k : Kind}
theorem Kind.ne_x_iff : k≠.x ↔ k=.a ∨ k=.b := by cases k <;> decide
variable {n : BitVec 32} {regs : Registers w} (fuel : Nat)
theorem settle_first_uncoded (hk : k≠.x) (v : BitVec w) (hnum : seen junk regs n+1=1) :
    ∃ sent, settle junk s5Commands (fuel+5) regs [.ingress (.arriving (header n k v))] =
      some (copyUncoded (enter junk regs n) (counted n k v 1 0),sent) ∧
      payloads sent = if Flagged junk regs n then [] else [v] := by
  have harrive := @codingIngress_arriving w junk s5Commands regs n k v
  rcases Kind.ne_x_iff.mp hk with rfl | rfl
  all_goals
    by_cases h : Flagged junk regs n
    · refine ⟨[],settle_dropped (harrive hnum rfl (if_pos h)) rfl fuel,?_⟩
      rw [if_pos h]
      rfl
    · refine ⟨_,settle_forwarded (harrive hnum rfl (if_neg h)) rfl rfl rfl fuel,?_⟩
      rw [if_neg h]
      rfl

theorem settle_first_coded (v : BitVec w) (hnum : seen junk regs n+1=1) :
    settle junk s5Commands (fuel+5) regs [.ingress (.arriving (header n .x v))] =
      some (copyCoded (enter junk regs n) (counted n .x v 1 0),[]) :=
  settle_dropped (codingIngress_arriving s5Commands regs n .x v hnum rfl rfl) rfl fuel

theorem settle_second_coded (v : BitVec w) (hnum : seen junk regs n+1=2) :
    ∃ sent, settle junk s5Commands (fuel+5) regs [.ingress (.arriving (header n .x v))] =
      some (enter junk regs n,sent) ∧
      payloads sent = if Flagged junk regs n then []
        else [v^^^regs.regPayloadDecodingBufferUncoded.read junk (slot n).toNat] := by
  by_cases h : Flagged junk regs n
  · have hingress := codingIngress_arriving s5Commands regs n .x v hnum rfl (if_pos h)
    exact ⟨[],settle_dropped hingress rfl fuel,by rw [if_pos h]; rfl⟩
  · have hingress := codingIngress_arriving s5Commands regs n .x v hnum rfl (if_neg h)
    exact ⟨_,settle_forwarded hingress rfl rfl rfl fuel,by rw [if_neg h]; rfl⟩

theorem codingIngress_clone (hk : k≠.x) (v : BitVec w) (hnum : regs.regRcvBatchNumPerIndex.read junk (slot n).toNat=n)
    (hflag : Flagged junk regs n) (hp : p=(cloneUniCast 1 (counted n k v 2 1)).cloned) :
    codingIngress junk s5Commands regs p=(regs,decodeUsingCloned junk regs 1 p) := by
  have hslot : { p with decoding := { p.decoding with
      batchIdx := p.hdr.codedPacketsBatchNum%.ofNat 32 decodingBufferSize } }=p := by
    rw [hp]
    rfl
  have hclaim : claimSlot junk regs p=regs := by
    rw [hp]
    exact if_neg (not_not.mpr hnum.symm)
  have hcount : countInput junk regs p=(regs,p) := by
    rw [hp]
    rfl
  have hgather : tableInputGathering s5Commands regs p=regs := by
    rw [hp]
    rcases Kind.ne_x_iff.mp hk with rfl | rfl <;> rfl
  have hnote : noteCoded junk regs p=p := by
    rw [hp]
    exact if_pos hflag
  have hdecode : tableIngressDecode junk s5Commands regs p=decodeUsingCloned junk regs 1 p := by
    rw [hp]
    rcases Kind.ne_x_iff.mp hk with rfl | rfl <;> rfl
  simp [codingIngress,hslot,hclaim,hcount,hgather,hnote,hdecode]

theorem settle_second_uncoded (hk : k≠.x) (v : BitVec w) (hnum : seen junk regs n+1=2) :
    ∃ sent, settle junk s5Commands (fuel+5) regs [.ingress (.arriving (header n k v))] = some (enter junk regs n,sent) ∧
      payloads sent = if Flagged junk regs n then
        [v,v^^^regs.regPayloadDecodingBufferCoded.read junk (slot n).toNat] else [v] := by
  have hrcv : (enter junk regs n).regRcvBatchNumPerIndex.read junk (slot n).toNat=n := by simp [enter,slot_lt n]
  have harrive := @codingIngress_arriving w junk s5Commands regs n k v
  rcases Kind.ne_x_iff.mp hk with rfl | rfl
  all_goals
    by_cases h : Flagged junk regs n
    · refine ⟨_,settle_cloned (harrive hnum rfl (if_pos h)) rfl rfl rfl
        (codingIngress_clone hk v hrcv h rfl) rfl rfl rfl fuel,?_⟩
      rw [if_pos h]
      rfl
    · refine ⟨_,settle_forwarded (harrive hnum rfl (if_neg h)) rfl rfl rfl fuel,?_⟩
      rw [if_neg h]
      rfl

theorem settle_third (k : Kind) (v : BitVec w) (hnum : seen junk regs n+1=3) :
    settle junk s5Commands (fuel+5) regs [.ingress (.arriving (header n k v))] = some (enter junk regs n,[]) := by
  have harrive := @codingIngress_arriving w junk s5Commands regs n k v
  cases k <;> exact settle_dropped (harrive hnum rfl rfl) rfl fuel

structure SameCoded (regs regs' : Registers w) (n : BitVec 32) : Prop where
  rcvBatchNum : regs'.regRcvBatchNumPerIndex=regs.regRcvBatchNumPerIndex.write (slot n).toNat n
  buffer : regs'.regPayloadDecodingBufferCoded=regs.regPayloadDecodingBufferCoded
  index : regs'.regCodedIndex=regs.regCodedIndex

theorem sameCoded_enter (regs : Registers w) (n : BitVec 32) : SameCoded regs (enter junk regs n) n :=
  ⟨rfl,rfl,rfl⟩

theorem SameCoded.trans (h : SameCoded regs regs' n) (h' : SameCoded regs' regs'' n) : SameCoded regs regs'' n where
  rcvBatchNum := by rw [h'.rcvBatchNum,h.rcvBatchNum,write_write]
  buffer := h'.buffer.trans h.buffer
  index := h'.index.trans h.index
variable (junk) in
def secondSent (regs : Registers w) (n : BitVec 32) (k : Kind) (v : BitVec w) : List (BitVec w) :=
  if k=.x then
    if Flagged junk regs n then []
    else [v^^^regs.regPayloadDecodingBufferUncoded.read junk (slot n).toNat]
  else
    if Flagged junk regs n then [v,v^^^regs.regPayloadDecodingBufferCoded.read junk (slot n).toNat]
    else [v]

theorem receive_nil (entries : Entries) (fuel : Nat) (regs : Registers w) :
    receive junk entries fuel regs []=some (regs,[]) :=
  rfl

theorem receive_cons {entries : Entries} {fuel : Nat} {hdr : CodingHdr w} {hdrs : List (CodingHdr w)}
    {sent sent' : List (Packet w)} (h : settle junk entries fuel regs [.ingress (.arriving hdr)]=some (regs',sent))
    (h' : receive junk entries fuel regs' hdrs=some (regs'',sent')) :
    receive junk entries fuel regs (hdr::hdrs)=some (regs'',sent++sent') := by
  rw [receive,h]
  simp [h']

theorem receive_second (k : Kind) (rest : List Kind)
    (hrest : rest.length≤1) (v : Kind → BitVec w) (hnum : seen junk regs n+1=2) :
    ∃ regs' sent, receive junk s5Commands (fuel+5) regs ((k::rest).map fun k => header n k (v k))=some (regs',sent) ∧
      SameCoded regs regs' n ∧ payloads sent=secondSent junk regs n k (v k) := by
  obtain ⟨sent,hsecond,hsent⟩ : ∃ sent, settle junk s5Commands (fuel+5) regs
      [.ingress (.arriving (header n k (v k)))]=some (enter junk regs n,sent) ∧
        payloads sent=secondSent junk regs n k (v k) := by
    by_cases hk : k=.x
    · subst hk
      exact settle_second_coded fuel (v .x) hnum
    · rw [secondSent,if_neg hk]
      exact settle_second_uncoded fuel hk (v k) hnum
  have hthird : seen junk (enter junk regs n) n+1=3 := by
    rw [seen_enter,hnum]
    rfl
  match rest, hrest with
  | [], _ =>
    refine ⟨enter junk regs n,sent,?_,sameCoded_enter regs n,hsent⟩
    simpa using receive_cons hsecond (receive_nil _ _ _)
  | [k'], _ =>
    have hlast := receive_cons (settle_third fuel k' (v k') hthird) (receive_nil _ _ _)
    refine ⟨enter junk (enter junk regs n) n,sent,?_,(sameCoded_enter regs n).trans (sameCoded_enter _ n),hsent⟩
    simpa using receive_cons hsecond hlast

def Recovered : Prop := (payloads sent).Perm [batch.a,batch.b]
def Batch.CodedFirst : Prop := batch.arrivals.head?=some .x
instance (batch : Batch w) : Decidable batch.CodedFirst := inferInstanceAs (Decidable (_=_))
variable (batch : Batch w)
theorem Batch.exists_arrivals : ∃ k₁ k₂ rest, batch.arrivals=k₁::k₂::rest ∧ k₁≠k₂ ∧ rest.length≤1 := by
  have hnodup := batch.nodup
  have hlen := batch.two_le
  match harr : batch.arrivals with
  | [] => simp [harr] at hlen
  | [_] => simp [harr] at hlen
  | k₁::k₂::rest =>
    rw [harr] at hnodup
    refine ⟨k₁,k₂,rest,rfl,fun h => by simp [h] at hnodup,?_⟩
    match rest with
    | [] => simp
    | [_] => simp
    | k₃::k₄::rest =>
      -- four different packets of three kinds
      revert hnodup
      cases k₁ <;> cases k₂ <;> cases k₃ <;> cases k₄ <;> simp

theorem Batch.uncoded_pair {k₁ k₂ : Kind} (h₁ : k₁≠.x) (h₂ : k₂≠.x) (hne : k₁≠k₂) :
    [batch.payload k₁,batch.payload k₂].Perm [batch.a,batch.b] ∧
      batch.payload k₁^^^batch.payload k₂=batch.a^^^batch.b := by
  rcases Kind.ne_x_iff.mp h₁ with rfl | rfl <;> rcases Kind.ne_x_iff.mp h₂ with rfl | rfl
  · exact absurd rfl hne
  · exact ⟨List.Perm.refl _,rfl⟩
  · exact ⟨List.Perm.swap _ _ _,BitVec.xor_comm _ _⟩
  · exact absurd rfl hne

theorem perm_xor_iff (a b c : BitVec w) : [b,b^^^c].Perm [a,b] ↔ c=a^^^b := by
  have hcancel : b^^^(a^^^b)=a := by rw [BitVec.xor_comm a b,← xor_assoc,BitVec.xor_self,BitVec.zero_xor]
  have hswap : [a,b].Perm [b,a] := List.Perm.swap _ _ _
  constructor
  · intro h
    have hperm : [b^^^c].Perm [a] := (perm_cons b).mp (h.trans hswap)
    have heq : b^^^c=a := singleton_perm_singleton.mp hperm
    rw [← heq,BitVec.xor_comm b c,xor_assoc,BitVec.xor_self,xor_zero]
  · rintro rfl
    rw [hcancel]
    exact hswap.symm

theorem Batch.perm_payload_xor (h : k≠.x) :
    [batch.payload k,batch.payload .x^^^batch.payload k].Perm [batch.a,batch.b] := by
  rw [BitVec.xor_comm]
  rcases Kind.ne_x_iff.mp h with rfl | rfl
  · refine ((perm_xor_iff batch.b batch.a _).mpr ?_).trans (List.Perm.swap _ _ _)
    exact BitVec.xor_comm _ _
  · exact (perm_xor_iff batch.a batch.b _).mpr rfl

theorem receive_codedFirst {batch : Batch w} (hfirst : batch.CodedFirst) (hnum : seen junk regs n+1=1) :
    ∃ regs' sent, receive junk s5Commands (fuel+5) regs
        (batch.arrivals.map fun k => header n k (batch.payload k))=some (regs',sent) ∧
      SameCoded (copyCoded regs (counted n .x (batch.a^^^batch.b) 1 0)) regs' n ∧
      Recovered batch sent := by
  obtain ⟨k₁,k₂,rest,harr,hne,hrest⟩ := batch.exists_arrivals
  obtain rfl : k₁=.x := by simpa [Batch.CodedFirst,harr] using hfirst
  set regs₁ := copyCoded (enter junk regs n) (counted n .x (batch.payload .x) 1 0) with hregs₁
  have hnum₁ : seen junk regs₁ n+1=2 := congrArg (·+1) ((seen_enter regs n).trans hnum)
  have hflag : Flagged junk regs₁ n := by simp [Flagged,hregs₁,copyCoded]
  have hbuffer : regs₁.regPayloadDecodingBufferCoded.read junk (slot n).toNat = batch.a^^^batch.b := by
    simp [hregs₁,copyCoded,slot_lt n,Batch.payload]
  have hstart : SameCoded (copyCoded regs (counted n .x (batch.a^^^batch.b) 1 0)) regs₁ n := ⟨rfl,rfl,rfl⟩
  obtain ⟨regs',sent,hreceive,hsame,hsent⟩ := receive_second fuel k₂ rest hrest batch.payload hnum₁
  refine ⟨regs',sent,?_,hstart.trans hsame,?_⟩
  · rw [harr]
    simpa using receive_cons (settle_first_coded fuel (batch.payload .x) hnum) hreceive
  · rw [Recovered,hsent,secondSent,if_neg (Ne.symm hne),if_pos hflag,hbuffer]
    rw [BitVec.xor_comm]
    exact batch.perm_payload_xor (Ne.symm hne)
variable (junk) in
def SlotHoldsSum (regs : Registers w) (n : BitVec 32) (batch : Batch w) : Prop :=
  .x ∉ batch.arrivals.take 2 ∧ regs.regPayloadDecodingBufferCoded.read junk (slot n).toNat=batch.a^^^batch.b

/-- A batch that starts with a payload is recovered if the slot is not taken for a coded one, and
otherwise only by accident. -/
theorem receive_uncodedFirst {batch : Batch w} (hfirst : ¬ batch.CodedFirst) (hnum : seen junk regs n+1=1) :
    ∃ regs' sent, receive junk s5Commands (fuel+5) regs
        (batch.arrivals.map fun k => header n k (batch.payload k))=some (regs',sent) ∧
      SameCoded regs regs' n ∧
      (Recovered batch sent ↔ ¬ Flagged junk regs n ∨ SlotHoldsSum junk regs n batch) := by
  obtain ⟨k₁,k₂,rest,harr,hne,hrest⟩ := batch.exists_arrivals
  have hk₁ : k₁≠.x := by simpa [Batch.CodedFirst,harr] using hfirst
  set regs₁ := copyUncoded (enter junk regs n) (counted n k₁ (batch.payload k₁) 1 0) with hregs₁
  have hnum₁ : seen junk regs₁ n+1=2 := congrArg (·+1) ((seen_enter regs n).trans hnum)
  have hflag : Flagged junk regs₁ n ↔ Flagged junk regs n := Iff.rfl
  have huncoded : regs₁.regPayloadDecodingBufferUncoded.read junk (slot n).toNat = batch.payload k₁ := by
    simp [hregs₁,copyUncoded,slot_lt n]
  have hcoded : regs₁.regPayloadDecodingBufferCoded=regs.regPayloadDecodingBufferCoded := rfl
  have hstart : SameCoded regs regs₁ n := ⟨rfl,rfl,rfl⟩
  obtain ⟨sent₁,hsettle,hsent₁⟩ := settle_first_uncoded fuel hk₁ (batch.payload k₁) hnum
  obtain ⟨regs',sent₂,hreceive,hsame,hsent₂⟩ := receive_second fuel k₂ rest hrest batch.payload hnum₁
  refine ⟨regs',sent₁++sent₂,?_,hstart.trans hsame,?_⟩
  · rw [harr]
    exact receive_cons hsettle hreceive
  · have hsent : payloads (sent₁++sent₂)=payloads sent₁++payloads sent₂ := map_append
    rw [Recovered,hsent,hsent₁,hsent₂,secondSent,hcoded,huncoded,SlotHoldsSum,harr]
    by_cases h : Flagged junk regs n
    · rw [if_pos h,if_pos (hflag.mpr h),if_pos (hflag.mpr h),nil_append]
      by_cases hk₂ : k₂=.x
      · simp [hk₂,h]
      · obtain ⟨hpair,hxor⟩ := batch.uncoded_pair hk₁ hk₂ hne
        rw [if_neg hk₂,← hpair.congr_right,perm_xor_iff,hxor]
        simp [h,Ne.symm hk₁,Ne.symm hk₂]
    · rw [if_neg h,if_neg (mt hflag.mp h),if_neg (mt hflag.mp h),singleton_append]
      refine iff_of_true ?_ (.inl h)
      by_cases hk₂ : k₂=.x
      · rw [hk₂,if_pos rfl]
        exact batch.perm_payload_xor hk₁
      · rw [if_neg hk₂]
        exact (batch.uncoded_pair hk₁ hk₂ hne).1
variable (prev : List (Batch w))
def codedBatches : List (Batch w × Nat) := (prev.zipIdx 1).filter fun e => e.1.CodedFirst
def codedIndex : Nat := ((codedBatches prev).getLast?.map fun e => e.2%decodingBufferSize).getD 0

/-- The coded payload of the last batch in slot `i` that started with it, 0 if there was none. -/
def codedPayload (i : Nat) : BitVec w :=
  (((codedBatches prev).filter fun e => e.2%decodingBufferSize=i).getLast?.map fun e =>
    e.1.a^^^e.1.b).getD 0

/-- After the batches `prev` the next one starts with its coded packet, or its slot is above the
last one that did.  In the third case the slot is wrongly taken for a coded one, but both payloads
arrive first and an earlier batch of the slot has left their very sum. -/
def Decodable (batch : Batch w) : Prop :=
  batch.CodedFirst ∨ codedIndex prev<(prev.length+1)%decodingBufferSize ∨ (.x ∉ batch.arrivals.take 2 ∧
      codedPayload prev ((prev.length+1)%decodingBufferSize)=batch.a^^^batch.b)
variable (junk) in
def decode (fuel : Nat) : Registers w → Nat → List (Batch w) → Option (List (List (Packet w)))
  | _, _, [] => some []
  | regs, n, batch::batches => do
    let (regs,sent) ← receive junk s5Commands fuel regs (batch.packets n)
    let rest ← decode fuel regs (n+1) batches
    pure (sent::rest)
variable (junk) in
structure After (prev : List (Batch w)) (regs : Registers w) : Prop where
  index : (regs.regCodedIndex.read junk 0).toNat=codedIndex prev
  buffer : ∀ i<decodingBufferSize, regs.regPayloadDecodingBufferCoded.read junk i=codedPayload prev i
  fresh : ∀ n, prev.length<n → n≤prev.length+decodingBufferSize →
    regs.regRcvBatchNumPerIndex.read junk (n%decodingBufferSize)≠.ofNat 32 n

theorem slot_ofNat (n : Nat) : (slot (.ofNat 32 n)).toNat=n%decodingBufferSize := by
  exact Nat.mod_mod_of_dvd n (by decide)

theorem after_zero : After junk [] (Registers.zero w) where
  index := by rfl
  buffer := by
    intro i hi
    rw [Registers.zero,read_filled junk 0 hi]
    rfl
  fresh := by
    intro n hpos hle
    rw [Registers.zero,read_filled junk 0 (Nat.mod_lt _ (by decide))]
    intro heq
    have hzero : 0=n%2^32 := by simpa using congrArg BitVec.toNat heq
    simp only [decodingBufferSize,length_nil] at hpos hle
    omega
variable (prev : List (Batch w)) (batch : Batch w)
theorem codedBatches_concat : codedBatches (prev++[batch]) =
      codedBatches prev ++ if batch.CodedFirst then [(batch,prev.length+1)] else [] := by
  simp [codedBatches,zipIdx_append,filter_append,filter_cons,Nat.add_comm]

theorem codedIndex_concat : codedIndex (prev++[batch]) =
      if batch.CodedFirst then (prev.length+1)%decodingBufferSize else codedIndex prev := by
  rw [codedIndex,codedBatches_concat]
  split_ifs
  · simp
  · rw [append_nil,codedIndex]

theorem codedPayload_concat (i : Nat) : codedPayload (prev++[batch]) i =
      if batch.CodedFirst ∧ i=(prev.length+1)%decodingBufferSize then batch.a^^^batch.b
      else codedPayload prev i := by
  rw [codedPayload,codedBatches_concat]
  by_cases hfirst : batch.CodedFirst
  · by_cases hi : i=(prev.length+1)%decodingBufferSize
    · simp [hfirst,hi]
    · simp [hfirst,hi,Ne.symm hi,codedPayload]
  · simp [hfirst,codedPayload]
variable {prev : List (Batch w)}
theorem After.fresh_concat (h : After junk prev regs) (batch : Batch w)
    (hrcv : regs'.regRcvBatchNumPerIndex=regs.regRcvBatchNumPerIndex.write
      ((prev.length+1)%decodingBufferSize) (.ofNat 32 (prev.length+1))) (n : Nat)
    (hlt : (prev++[batch]).length<n) (hle : n≤(prev++[batch]).length+decodingBufferSize) :
    regs'.regRcvBatchNumPerIndex.read junk (n%decodingBufferSize)≠.ofNat 32 n := by
  rw [length_append,length_singleton] at hlt hle
  rw [hrcv,read_write (Nat.mod_lt _ (by decide))]
  split_ifs with hslot
  · intro heq
    have htoNat := congrArg BitVec.toNat heq
    simp only [toNat_ofNat,decodingBufferSize] at htoNat hslot hle
    omega
  · refine h.fresh n (by omega) ?_
    by_contra hgt
    refine hslot ?_
    obtain rfl : n=prev.length+1+decodingBufferSize := by omega
    exact Nat.add_mod_right _ _

theorem receive_batch (h : After junk prev regs) (batch : Batch w) :
    ∃ regs' sent, receive junk s5Commands (fuel+5) regs (batch.packets (prev.length+1)) = some (regs',sent) ∧
      After junk (prev++[batch]) regs' ∧ (Recovered batch sent ↔ Decodable prev batch) := by
  have hslot := slot_ofNat (prev.length+1)
  have hnum : seen junk regs (.ofNat 32 (prev.length+1))+1=1 := by
    rw [seen,hslot,if_neg (Ne.symm (h.fresh (prev.length+1) (by omega) (Nat.add_le_add_left (by decide) _)))]
    rfl
  by_cases hfirst : batch.CodedFirst
  · obtain ⟨regs',sent,hreceive,hsame,hrec⟩ := receive_codedFirst fuel hfirst hnum
    refine ⟨regs',sent,hreceive,⟨?_,?_,?_⟩,iff_of_true hrec (.inl hfirst)⟩
    · rw [hsame.index,codedIndex_concat,if_pos hfirst]
      simp [copyCoded,hslot]
    · intro i hi
      rw [hsame.buffer,codedPayload_concat,copyCoded,read_write hi,h.buffer i hi]
      simp [hslot,hfirst]
    · refine h.fresh_concat batch ?_
      rw [hsame.rcvBatchNum,hslot]
      rfl
  · obtain ⟨regs',sent,hreceive,hsame,hrec⟩ := receive_uncodedFirst fuel hfirst hnum
    refine ⟨regs',sent,hreceive,⟨?_,?_,?_⟩,hrec.trans ?_⟩
    · rw [hsame.index,h.index,codedIndex_concat,if_neg hfirst]
    · intro i hi
      rw [hsame.buffer,h.buffer i hi,codedPayload_concat,if_neg fun hi' => hfirst hi'.1]
    · refine h.fresh_concat batch ?_
      rw [hsame.rcvBatchNum,hslot]
    · rw [Decodable,or_iff_right hfirst,Flagged,le_def,hslot,h.index,Nat.not_le,
        SlotHoldsSum,hslot,h.buffer _ (Nat.mod_lt _ (by decide))]

theorem decode_spec (h : After junk prev regs) (batches : List (Batch w)) :
    ∃ outs, decode junk (fuel+5) regs (prev.length+1) batches=some outs ∧ outs.length=batches.length ∧ ∀ i batch sent,
    batches[i]?=some batch → outs[i]?=some sent → (Recovered batch sent ↔ Decodable (prev++batches.take i) batch) := by
  induction batches generalizing prev regs with
  | nil => exact ⟨[],rfl,rfl,by simp⟩
  | cons batch batches ih =>
    obtain ⟨regs',sent,hreceive,hafter,hrec⟩ := receive_batch fuel h batch
    obtain ⟨outs,hdecode,hlen,houts⟩ := ih hafter
    rw [length_append,length_singleton] at hdecode
    refine ⟨sent::outs,?_,by simp [hlen],fun i batch' sent' hbatch hsent => ?_⟩
    · rw [decode,hreceive]
      simp [hdecode]
    · cases i with
      | zero =>
        cases hbatch
        cases hsent
        simpa using hrec
      | succ i => simpa using houts i batch' sent' hbatch hsent

/-- From zero registers, for any number of batches numbered from 1: a batch comes out exactly if it
is decodable after those before it. -/
theorem batch_recovered_iff (junk : Unspecified) (fuel : Nat) (batches : List (Batch w)) :
    ∃ outs, decode junk (fuel+5) (.zero w) 1 batches=some outs ∧ outs.length=batches.length ∧ ∀ i batch sent,
    batches[i]?=some batch → outs[i]?=some sent → (Recovered batch sent ↔ Decodable (batches.take i) batch) := by
  simpa using decode_spec fuel after_zero batches

def lossyBatch : Batch 8 where
  a := 3
  b := 5
  arrivals := [.a,.x]
  nodup := by decide
  two_le := by decide

theorem not_decodable_lossyBatch {k : Nat} (hk : (k+1)%decodingBufferSize=0) :
    ¬ Decodable (List.replicate k lossyBatch) lossyBatch := by
  rw [Decodable,length_replicate,hk]
  rintro (hfirst | hslot | ⟨hx,-⟩)
  · exact absurd hfirst (by decide)
  · exact absurd hslot (Nat.not_lt_zero _)
  · exact hx (by decide)

/-- The batch 1024 is in slot 0, which is always taken for one with a coded packet. -/
theorem batch_1024_not_recovered :
    ∃ outs sent, decode (fun _ => 0) 5 (.zero 8) 1 (List.replicate 1024 lossyBatch)=some outs ∧
      outs[1023]?=some sent ∧ ¬ Recovered lossyBatch sent := by
  have hzero : After (fun _ => 0) [] (.zero 8) := after_zero
  obtain ⟨outs,hdecode,hlen,houts⟩ := decode_spec 0 hzero (List.replicate 1024 lossyBatch)
  rw [length_replicate] at hlen
  have hsent : outs[1023]?=some outs[1023] := List.getElem?_eq_getElem (by omega)
  have hbatch : (List.replicate 1024 lossyBatch)[1023]?=some lossyBatch :=
    List.getElem?_replicate_of_lt (by decide)
  refine ⟨outs,outs[1023],hdecode,hsent,?_⟩
  rw [houts 1023 lossyBatch outs[1023] hbatch hsent,nil_append,take_replicate]
  exact not_decodable_lossyBatch (by decide)
end P4Benchmarks.AquaFlow
