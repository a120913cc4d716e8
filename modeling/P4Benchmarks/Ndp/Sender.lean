import P4Benchmarks.Ndp.Receiver
/-!
# The sending side of an NDP socket

`ndp_send` cuts the bytes it is given into packets.  Before it opens a packet, it waits until the
window of the receiver and its own buffers allow it; `check_acks`, which moves both bounds, is left
open here.
-/
namespace P4Benchmarks.Ndp
open Lib
structure SendCall where
  left : List Byte
  (onlySendFull dontBlock : Bool)
deriving DecidableEq

/-- `txRing` are the packets that were produced into `tx_ring`, `accepted` the bytes that all calls
have copied so far. -/
structure Sender where
  txNextSeqNumber : Seq
  synSent : Bool
  txPkbInUse : Option DataPacket
  txRing : List DataPacket
  call : Option SendCall
  accepted : List Byte
deriving DecidableEq

def sendWaits (txNextSeqNumber remoteRwndEdge txFirstNotAck numTxPacketBuffers : Seq) : Bool :=
  txNextSeqNumber=remoteRwndEdge ∨ txNextSeqNumber ≥ txFirstNotAck+numTxPacketBuffers

def initialEdge (sendIsn : Seq) : Seq := sendIsn+BitVec.ofNat 32 ndpInitialRxWindowSize
namespace Sender
def init (sendIsn : Seq) : Sender := ⟨sendIsn,false,none,[],none,[]⟩

def openPacket (x : Sender) : DataPacket :=
  match x.txPkbInUse with
  | some pb => pb
  | none => ⟨x.txNextSeqNumber,!x.synSent,[]⟩
variable (maxPayload : Nat) (x : Sender) (call : SendCall)
def roundSize : Nat := min (maxPayload-x.openPacket.payload.length) call.left.length

def filledPacket : DataPacket :=
  { x.openPacket with
    payload := x.openPacket.payload++call.left.take (x.roundSize maxPayload call) }

def sendRound : Sender where
  txNextSeqNumber := if x.txPkbInUse.isNone then x.txNextSeqNumber+1 else x.txNextSeqNumber
  synSent := x.synSent || x.txPkbInUse.isNone
  txPkbInUse :=
    if (x.filledPacket maxPayload call).payload.length=maxPayload ∨ !call.onlySendFull then none
    else some (x.filledPacket maxPayload call)
  txRing :=
    if (x.filledPacket maxPayload call).payload.length=maxPayload ∨ !call.onlySendFull then
      x.txRing++[x.filledPacket maxPayload call]
    else x.txRing
  call :=
    if call.left.length=x.roundSize maxPayload call then none
    else some { call with left := call.left.drop (x.roundSize maxPayload call) }
  accepted := x.accepted++call.left.take (x.roundSize maxPayload call)

def packets : List DataPacket := x.txRing++x.txPkbInUse.toList
end Sender

structure Numbered (isn : Seq) (packets : List DataPacket) : Prop where
  length_lt : packets.length<2^32
  sequenceNumber_eq : ∀ k p, packets[k]?=some p → p.sequenceNumber=isn+BitVec.ofNat 32 k
  syn_iff : ∀ k p, packets[k]?=some p → (p.syn ↔ k=0)
namespace Numbered
variable {isn : Seq} {ps qs : List DataPacket} {p q : DataPacket}
theorem left (h : Numbered isn (ps++qs)) : Numbered isn ps where
  length_lt := by
    have hlt := h.length_lt
    rw [List.length_append] at hlt
    omega
  sequenceNumber_eq k p hp :=
    h.sequenceNumber_eq k p (List.getElem?_append_left (List.getElem?_eq_some_iff.mp hp).1 ▸ hp)
  syn_iff k p hp := h.syn_iff k p (List.getElem?_append_left (List.getElem?_eq_some_iff.mp hp).1 ▸ hp)

theorem concat (h : Numbered isn ps) (hlt : ps.length+1<2^32) (hseq : p.sequenceNumber=isn+BitVec.ofNat 32 ps.length)
    (hsyn : p.syn ↔ ps.length=0) : Numbered isn (ps++[p]) := by
  have hcases (k : Nat) (q : DataPacket) (hq : (ps++[p])[k]?=some q) : ps[k]?=some q ∨ (k=ps.length ∧ q=p) := by
    rcases Nat.lt_trichotomy k ps.length with hk | rfl | hk
    · rw [List.getElem?_append_left hk] at hq
      exact .inl hq
    · rw [List.getElem?_concat_length] at hq
      exact .inr ⟨rfl,(Option.some.inj hq).symm⟩
    · rw [List.getElem?_eq_none (by simp; omega)] at hq
      cases hq
  refine ⟨by simpa using hlt,fun k q hq => ?_,fun k q hq => ?_⟩
  · rcases hcases k q hq with hq | ⟨rfl,rfl⟩
    · exact h.sequenceNumber_eq k q hq
    · exact hseq
  · rcases hcases k q hq with hq | ⟨rfl,rfl⟩
    · exact h.syn_iff k q hq
    · exact hsyn
end Numbered

structure Sender.Cuts (isn : Seq) (x : Sender) : Prop where
  numbered : Numbered isn x.packets
  next_eq : x.txNextSeqNumber=isn+BitVec.ofNat 32 x.packets.length
  synSent_iff : x.synSent ↔ x.packets.length≠0
  accepted_eq : x.accepted=(x.packets.map DataPacket.payload).flatten
namespace Sender
variable {isn : Seq} {x : Sender} {maxPayload : Nat} {call : SendCall}
theorem cuts_init (isn : Seq) : (init isn).Cuts isn where
  numbered := ⟨Nat.two_pow_pos 32,nofun,nofun⟩
  next_eq := (BitVec.add_zero isn).symm
  synSent_iff := ⟨nofun,fun h => absurd rfl h⟩
  accepted_eq := rfl

theorem packets_sendRound : (x.sendRound maxPayload call).packets=x.txRing++[x.filledPacket maxPayload call] := by
  by_cases hfull : (x.filledPacket maxPayload call).payload.length=maxPayload ∨ !call.onlySendFull
  · simp only [packets,sendRound,if_pos hfull]
    exact List.append_nil _
  · simp only [packets,sendRound,if_neg hfull]
    rfl

theorem Cuts.sendRound (h : x.Cuts isn) (hopen : x.txPkbInUse=none → x.packets.length+1<2^32) :
    (x.sendRound maxPayload call).Cuts isn := by
  cases huse : x.txPkbInUse with
  | none =>
    have hpackets : x.packets=x.txRing := by
      rw [packets,huse]
      exact List.append_nil _
    have hfilled : x.filledPacket maxPayload call =
        ⟨x.txNextSeqNumber,!x.synSent,call.left.take (x.roundSize maxPayload call)⟩ := by
      rw [filledPacket,openPacket,huse]
      rfl
    have hnumbered := h.numbered
    have hlen := hopen huse
    have hsyn := h.synSent_iff
    have hnext := h.next_eq
    rw [hpackets] at hnumbered hlen hsyn hnext
    refine ⟨?_,?_,?_,?_⟩
    · rw [packets_sendRound,hfilled]
      refine hnumbered.concat hlen hnext ?_
      rw [Bool.not_eq_true',← Bool.not_eq_true,hsyn,not_not]
    · rw [packets_sendRound,List.length_append,List.length_singleton]
      show (if x.txPkbInUse.isNone then _ else _)=_
      rw [huse,hnext,BitVec.ofNat_add,← BitVec.add_assoc]
      rfl
    · rw [packets_sendRound]
      simp [Sender.sendRound,huse]
    · rw [packets_sendRound,hfilled,Sender.sendRound,h.accepted_eq,hpackets]
      simp
  | some pb =>
    have hpackets : x.packets=x.txRing++[pb] := by
      rw [packets,huse]
      rfl
    have hfilled : x.filledPacket maxPayload call =
        { pb with payload := pb.payload++call.left.take (x.roundSize maxPayload call) } := by
      rw [filledPacket,openPacket,huse]
    have hnumbered := h.numbered
    have hnext := h.next_eq
    have hsyn := h.synSent_iff
    rw [hpackets] at hnumbered hnext hsyn
    have hlast : (x.txRing++[pb])[x.txRing.length]?=some pb := List.getElem?_concat_length
    refine ⟨?_,?_,?_,?_⟩
    · rw [packets_sendRound,hfilled]
      refine hnumbered.left.concat ?_ (hnumbered.sequenceNumber_eq _ pb hlast) (hnumbered.syn_iff _ pb hlast)
      simpa using hnumbered.length_lt
    · rw [packets_sendRound,List.length_append,List.length_singleton]
      rw [List.length_append,List.length_singleton] at hnext
      show (if x.txPkbInUse.isNone then _ else _)=_
      rw [huse]
      exact hnext
    · rw [packets_sendRound]
      have hsent : x.synSent := hsyn.mpr (by simp)
      simp [Sender.sendRound,hsent]
    · rw [packets_sendRound,hfilled,Sender.sendRound,h.accepted_eq,hpackets]
      simp

/-- The loop condition of `ndp_send` does not let the sequence number wrap around: it is compared
without regard to wrapping. -/
theorem Cuts.length_of_not_sendWaits (h : x.Cuts isn) (hwrap : isn.toNat+x.packets.length<2^32) {edge first num : Seq}
    (hwaits : sendWaits x.txNextSeqNumber edge first num=false) : isn.toNat+(x.packets.length+1)<2^32 := by
  have hlt : x.txNextSeqNumber<first+num := by
    simp only [sendWaits,decide_eq_false_iff_not,not_or,ge_iff_le,BitVec.not_le] at hwaits
    exact hwaits.2
  have hnext : x.txNextSeqNumber.toNat=isn.toNat+x.packets.length := by
    rw [h.next_eq,BitVec.toNat_add,BitVec.toNat_ofNat,Nat.add_mod_mod,Nat.mod_eq_of_lt hwrap]
  rw [BitVec.lt_def] at hlt
  omega

theorem Cuts.length_lt_of_not_sendWaits (h : x.Cuts isn) (hle : x.packets.length≤ndpInitialRxWindowSize)
    {first num : Seq} (hwaits : sendWaits x.txNextSeqNumber (initialEdge isn) first num=false) :
    x.packets.length<ndpInitialRxWindowSize := by
  refine Nat.lt_of_le_of_ne hle fun heq => ?_
  simp [sendWaits,initialEdge,h.next_eq,heq] at hwaits
end Sender
end P4Benchmarks.Ndp
