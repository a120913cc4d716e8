import P4Benchmarks.Ndp.Ownership
import P4Benchmarks.Ndp.Sender
/-! # The receive window -/
namespace P4Benchmarks.Ndp
open Lib BitVec Nat Ndp.Ring
def Socket.slot (d : Socket) (j : Nat) : Option Nat := cyclicAt d.rxWndRing.buf d.rxWndRing.producerIndex j

structure Socket.WindowAfter (isn : Seq) (tx : List DataPacket) (d : Socket) (n : Nat) : Prop where
  seq_eq : d.recvPktSeq=isn+BitVec.ofNat 32 n
  le_length : n≤tx.length
  slots : ∀ j<d.rxWndRing.numElements, ∀ i, d.slot j=some i →
    d.rxPacketBuffers i ∈ tx ∧ d.seqOf i=d.recvPktSeq+BitVec.ofNat 32 j

structure Socket.WindowBefore (isn : Seq) (tx : List DataPacket) (d : Socket) (low : Nat) : Prop where
  seq_eq : d.recvLow=isn+BitVec.ofNat 32 low
  low_lt : low<ndpInitialRxWindowSize
  slots : ∀ j<d.rxWndRing.numElements, ∀ i, d.slot j=some i → tx[low+j]?=some (d.rxPacketBuffers i)

structure Socket.WindowEmpty (d : Socket) : Prop where
  index_eq : d.rxWndRing.producerIndex=0
  slots : ∀ j<d.rxWndRing.numElements, d.slot j=none

def Socket.Window (isn : Seq) (tx : List DataPacket) (d : Socket) (n : Nat) : Prop :=
  if d.synReceived then d.WindowAfter isn tx n
  else n=0 ∧ if d.anyPacketReceived then ∃ low, d.WindowBefore isn tx low else d.WindowEmpty
section Numbers
variable {isn : Seq} {k m : Nat}
theorem toNat_seq_sub (hk : k<2^32) (hm : m<2^32) : ((isn+BitVec.ofNat 32 k)-(isn+BitVec.ofNat 32 m)).toNat =
      if m ≤ k then k-m else 2^32-(m-k) := by
  rw [toNat_sub,toNat_add,toNat_add,toNat_ofNat,toNat_ofNat]
  split_ifs <;> omega

theorem seq_inj (hk : k<2^32) (hm : m<2^32) (h : isn+BitVec.ofNat 32 k=isn+BitVec.ofNat 32 m) : k=m := by
  have heq : .ofNat 32 k=BitVec.ofNat 32 m := BitVec.add_right_inj isn |>.mp h
  have hnat := congrArg BitVec.toNat heq
  rwa [toNat_ofNat,toNat_ofNat,mod_eq_of_lt hk,mod_eq_of_lt hm] at hnat
end Numbers
namespace Socket
variable {isn : Seq} {tx : List DataPacket} {d d' : Socket} {n : Nat}
theorem slot_mem_held {i j : Nat} (h : d.slot j=some i) : i ∈ d.held := mem_reduceOption_of_getD h

structure SameWindow (d d' : Socket) : Prop where
  synReceived : d'.synReceived=d.synReceived
  anyPacketReceived : d'.anyPacketReceived=d.anyPacketReceived
  recvPktSeq : d'.recvPktSeq=d.recvPktSeq
  recvLow : d'.recvLow=d.recvLow
  rxWndRing : d'.rxWndRing=d.rxWndRing
  buffers : ∀ i ∈ d.held, d'.rxPacketBuffers i=d.rxPacketBuffers i

theorem sameWindow_acks (d : Socket) (a : AckState) : d.SameWindow { d with acks := a } :=
  ⟨rfl,rfl,rfl,rfl,rfl,fun _ _ => rfl⟩

theorem Window.congr (h : d.Window isn tx n) (hsame : d.SameWindow d') : d'.Window isn tx n := by
  have hslot (j : Nat) : d'.slot j=d.slot j := by rw [slot,hsame.rxWndRing,slot]
  have hbuf {i j : Nat} (hi : d'.slot j=some i) : d'.rxPacketBuffers i=d.rxPacketBuffers i := by
    rw [hslot] at hi
    exact hsame.buffers i (slot_mem_held hi)
  rw [Window] at h ⊢
  rw [hsame.synReceived,hsame.anyPacketReceived]
  split_ifs at h ⊢
  · refine ⟨hsame.recvPktSeq.trans h.seq_eq,h.le_length,fun j hj i hi => ?_⟩
    rw [hsame.rxWndRing] at hj
    rw [seqOf,hbuf hi,hsame.recvPktSeq]
    exact h.slots j hj i ((hslot j).symm.trans hi)
  · obtain ⟨hn,low,hlow⟩ := h
    refine ⟨hn,low,hsame.recvLow.trans hlow.seq_eq,hlow.low_lt,fun j hj i hi => ?_⟩
    rw [hsame.rxWndRing] at hj
    rw [hbuf hi]
    exact hlow.slots j hj i ((hslot j).symm.trans hi)
  · refine ⟨h.1,hsame.rxWndRing ▸ h.2.index_eq,fun j hj => ?_⟩
    rw [hsame.rxWndRing] at hj
    rw [hslot]
    exact h.2.slots j hj

theorem Window.append (h : d.Window isn tx n) (ps : List DataPacket) : d.Window isn (tx++ps) n := by
  rw [Window] at h ⊢
  split_ifs at h ⊢
  · refine ⟨h.seq_eq,?_,fun j hj i hi => ?_⟩
    · rw [List.length_append]
      exact le_add_right_of_le h.le_length
    · obtain ⟨hmem,hseq⟩ := h.slots j hj i hi
      exact ⟨List.mem_append_left ps hmem,hseq⟩
  · obtain ⟨hn,low,hlow⟩ := h
    refine ⟨hn,low,hlow.seq_eq,hlow.low_lt,fun j hj i hi => ?_⟩
    have hget := hlow.slots j hj i hi
    rw [List.getElem?_append_left (List.getElem?_eq_some_iff.mp hget).1]
    exact hget
  · exact h

theorem Window.le_length (h : d.Window isn tx n) : n≤tx.length := by
  rw [Window] at h
  split_ifs at h
  · exact WindowAfter.le_length h
  · rw [h.1]
    exact Nat.zero_le _
  · rw [h.1]
    exact Nat.zero_le _

theorem cyclicAt_set_cases {buf : List (Option Nat)} {o i j k idx : Nat} (hj : j<buf.length) (hk : k<buf.length)
    (h : cyclicAt (buf.set ((o+k)%buf.length) (some idx)) o j=some i) : k=j ∧ idx=i ∨ cyclicAt buf o j=some i := by
  by_cases hkj : k=j
  · subst hkj
    rw [cyclicAt_set_self hj] at h
    exact .inl ⟨rfl,Option.some.inj h⟩
  · exact .inr ((cyclicAt_set_ne hj hk hkj).symm.trans h)
variable {idx k low : Nat}
theorem WindowAfter.dataAfterSyn (h : d.WindowAfter isn tx n) (hidx : d.rxPacketBuffers idx ∈ tx)
    (hsize : ndpInitialRxWindowSize<d.rxWndRing.numElements)
    (hdata : d.dataAfterSyn idx=some d') : d'.WindowAfter isn tx n := by
  rcases dataAfterSyn_eq_some hdata with ⟨a,rfl⟩ | ⟨hdiff,-,a,rfl⟩
  · exact ⟨h.seq_eq,h.le_length,h.slots⟩
  · refine ⟨h.seq_eq,h.le_length,fun j hj i hslot => ?_⟩
    have hj' : j<d.rxWndRing.numElements := by simpa using hj
    obtain ⟨rfl,rfl⟩ | hold := cyclicAt_set_cases hj' (Nat.lt_trans hdiff hsize) hslot
    · refine ⟨hidx,?_⟩
      show d.seqOf idx=d.recvPktSeq+.ofNat 32 (d.seqOf idx-d.recvPktSeq).toNat
      rw [ofNat_toNat,setWidth_eq,BitVec.add_comm,BitVec.sub_add_cancel]
    · exact h.slots j hj' i hold

theorem WindowBefore.behind (h : d.WindowBefore isn tx low) (hk : tx[k]?=some (d.rxPacketBuffers idx)) (hlow : low≤k)
    (hdiff : d.seqDiffBeforeSyn idx=k-low) (hlt : k-low<d.rxWndRing.numElements)
    (a : AckState) :
    WindowBefore isn tx
      { d with
        rxWndRing := d.rxWndRing.setElementAtWrapped (d.rxWndRing.producerIndex+d.seqDiffBeforeSyn idx) (some idx)
        acks := a } low := by
  refine ⟨h.seq_eq,h.low_lt,fun j hj i hslot => ?_⟩
  have hj' : j<d.rxWndRing.numElements := by simpa using hj
  rw [hdiff] at hslot
  obtain ⟨rfl,rfl⟩ | hold := cyclicAt_set_cases hj' hlt hslot
  · rw [Nat.add_sub_cancel' hlow]
    exact hk
  · exact h.slots j hj' i hold

theorem earlierIndex_eq (hdiff : d.seqDiffBeforeSyn idx=2^32-(low-k)) (hle : low-k≤d.rxWndRing.numElements)
    (hpi : d.rxWndRing.producerIndex<d.rxWndRing.numElements) (hsize : d.rxWndRing.numElements≤2^31) :
    d.earlierIndex idx=(d.rxWndRing.producerIndex+(d.rxWndRing.numElements-(low-k)))%d.rxWndRing.numElements := by
  have hsum : (d.rxWndRing.producerIndex+d.rxWndRing.numElements+(2^32-(low-k)))%2^32 =
      d.rxWndRing.producerIndex+(d.rxWndRing.numElements-(low-k)) := by omega
  rw [earlierIndex,hdiff,hsum]
  rfl
section
variable (hnum : Numbered isn tx) (hk : tx[k]?=some (d.rxPacketBuffers idx))
include hnum hk
theorem WindowBefore.noteSyn (h : d.WindowBefore isn tx low) (hlow : low≤k) (hsyn : d.synReceived=false)
    (hany : d.anyPacketReceived) : (d.noteSyn idx).Window isn tx 0 := by
  rw [Socket.noteSyn]
  split_ifs with hflag
  · obtain rfl : k=0 := (hnum.syn_iff k _ hk).mp hflag
    obtain rfl : low=0 := le_zero.mp hlow
    have hseq : d.seqOf idx=isn+.ofNat 32 0 := hnum.sequenceNumber_eq 0 _ hk
    refine ⟨hseq,Nat.zero_le _,fun j hj i hslot => ?_⟩
    have hget := h.slots j hj i hslot
    rw [Nat.zero_add] at hget
    refine ⟨List.mem_of_getElem? hget,?_⟩
    show (d.rxPacketBuffers i).sequenceNumber=d.seqOf idx+.ofNat 32 j
    rw [hseq,hnum.sequenceNumber_eq j _ hget]
    simp
  · rw [Window,hsyn,hany]
    exact ⟨rfl,low,h⟩

theorem WindowEmpty.first (h : d.WindowEmpty) (hlt : k<ndpInitialRxWindowSize)
    (hpos : 0<d.rxWndRing.numElements) (a : AckState) :
    WindowBefore isn tx
      { d with
        recvLow := d.seqOf idx
        recvHigh := d.seqOf idx
        anyPacketReceived := true
        rxWndRing := d.rxWndRing.setElementAt 0 (some idx)
        acks := a } k := by
  refine ⟨hnum.sequenceNumber_eq k _ hk,hlt,fun j hj i hslot => ?_⟩
  have hj' : j<d.rxWndRing.numElements := by simpa using hj
  have hindex : (d.rxWndRing.producerIndex+0)%d.rxWndRing.buf.length=0 := by
    rw [h.index_eq]
    exact zero_mod _
  change cyclicAt (d.rxWndRing.buf.set 0 (some idx)) d.rxWndRing.producerIndex j=some i at hslot
  rw [← hindex] at hslot
  obtain ⟨rfl,rfl⟩ | hold := cyclicAt_set_cases hj' hpos hslot
  · exact hk
  · have hnone := h.slots j hj'
    rw [slot,hold] at hnone
    cases hnone

theorem WindowBefore.earlier (h : d.WindowBefore isn tx low) (hlow : k<low) (hlen : tx.length≤ndpInitialRxWindowSize)
    (hsize : ndpInitialRxWindowSize<d.rxWndRing.numElements)
    (hindex : d.earlierIndex idx=(d.rxWndRing.producerIndex+(d.rxWndRing.numElements-(low-k))) %
        d.rxWndRing.numElements)
    (a : AckState) :
    WindowBefore isn tx
      { d with
        recvLow := d.seqOf idx
        rxWndRing := setElementAt
          { d.rxWndRing with producerIndex := d.earlierIndex idx } (d.earlierIndex idx) (some idx)
        acks := a } k := by
  have hlowlt := h.low_lt
  have hbuf : d.rxWndRing.buf.length=d.rxWndRing.numElements := rfl
  refine ⟨hnum.sequenceNumber_eq k _ hk,by omega,fun j hj i hslot => ?_⟩
  have hj' : j<d.rxWndRing.buf.length := by simpa [numElements] using hj
  have horigin : (d.earlierIndex idx+0)%d.rxWndRing.buf.length=d.earlierIndex idx :=
    mod_eq_of_lt (mod_lt _ (by omega))
  change cyclicAt (d.rxWndRing.buf.set (d.earlierIndex idx) (some idx)) (d.earlierIndex idx) j = some i at hslot
  nth_rewrite 1 [← horigin] at hslot
  obtain ⟨rfl,rfl⟩ | hslot := cyclicAt_set_cases hj' (by omega) hslot
  · exact hk
  · rw [hindex] at hslot
    by_cases hjlow : low-k≤j
    · -- a slot of the old window
      have hold := (cyclicAt_back (by omega) hjlow).symm.trans hslot
      have hget := h.slots (j-(low-k)) (by omega) i hold
      rwa [show low+(j-(low-k))=k+j by omega] at hget
    · -- a slot behind the old window, which would hold a packet outside of the initial window
      have hold := (cyclicAt_add d.rxWndRing.buf d.rxWndRing.producerIndex
        (d.rxWndRing.numElements-(low-k)) j).symm.trans hslot
      have hget := h.slots (d.rxWndRing.numElements-(low-k)+j) (by omega) i hold
      have hout := (List.getElem?_eq_some_iff.mp hget).1
      omega

theorem WindowEmpty.dataBeforeSyn (h : d.WindowEmpty) (hlt : k<ndpInitialRxWindowSize)
    (hpos : 0<d.rxWndRing.numElements) (hsyn : d.synReceived=false) (hany : d.anyPacketReceived=false)
    (hdata : d.dataBeforeSyn idx=some d') : d'.Window isn tx 0 := by
  rw [Socket.dataBeforeSyn,if_pos (by simp [hany])] at hdata
  obtain ⟨a,rfl⟩ := acceptBeforeSyn_eq_some hdata
  exact (h.first hnum hk hlt hpos a).noteSyn hnum hk le_rfl hsyn rfl

theorem WindowBefore.dataBeforeSyn (h : d.WindowBefore isn tx low) (hlen : tx.length≤ndpInitialRxWindowSize)
    (hsize : ndpInitialRxWindowSize<d.rxWndRing.numElements) (hmax : d.rxWndRing.numElements≤2^31)
    (hpi : d.rxWndRing.producerIndex<d.rxWndRing.numElements) (hsyn : d.synReceived=false) (hany : d.anyPacketReceived)
    (hdata : d.dataBeforeSyn idx=some d') : d'.Window isn tx 0 := by
  have hklt : k<tx.length := (List.getElem?_eq_some_iff.mp hk).1
  have hlowlt := h.low_lt
  have hwindow : ndpInitialRxWindowSize=200 := rfl
  have hmaxdiff : ndpMaxSeqDiff=1000000000 := rfl
  have hseq : d.seqOf idx=isn+.ofNat 32 k := hnum.sequenceNumber_eq k _ hk
  rw [Socket.dataBeforeSyn,if_neg (by simp [hany])] at hdata
  rcases Nat.lt_or_ge k low with hlow | hlow
  · have hdiff : d.seqDiffBeforeSyn idx=2^32-(low-k) := by
      rw [seqDiffBeforeSyn,hseq,h.seq_eq,toNat_seq_sub (by omega) (by omega),if_neg (by omega)]
    rw [if_pos (by omega)] at hdata
    split_ifs at hdata
    obtain ⟨a,rfl⟩ := acceptBeforeSyn_eq_some hdata
    have hindex := earlierIndex_eq hdiff (by omega) hpi hmax
    exact (h.earlier hnum hk hlow hlen hsize hindex a).noteSyn hnum hk le_rfl hsyn hany
  · have hdiff : d.seqDiffBeforeSyn idx=k-low := by
      rw [seqDiffBeforeSyn,hseq,h.seq_eq,toNat_seq_sub (by omega) (by omega),if_pos hlow]
    rw [if_neg (by omega),if_neg (by omega)] at hdata
    obtain ⟨a,rfl⟩ := acceptBeforeSyn_eq_some hdata
    exact (h.behind hk hlow hdiff (by omega) a).noteSyn hnum hk hlow hsyn hany
end

theorem Window.lookAt (h : d.Window isn tx n) (hnum : Numbered isn tx) (hidx : d.rxPacketBuffers idx ∈ tx)
    (hlen : d.synReceived=false → tx.length≤ndpInitialRxWindowSize)
    (hsize : ndpInitialRxWindowSize<d.rxWndRing.numElements) (hmax : d.rxWndRing.numElements≤2^31)
    (hpi : d.rxWndRing.producerIndex<d.rxWndRing.numElements) (hlook : d.lookAt idx=some d') : d'.Window isn tx n := by
  rw [Socket.lookAt] at hlook
  rw [Window] at h
  cases hsyn : d.synReceived with
  | true =>
    rw [hsyn,if_pos rfl] at hlook h
    have hsyn' : d'.synReceived := by rcases dataAfterSyn_eq_some hlook with ⟨a,rfl⟩ | ⟨-,-,a,rfl⟩ <;> exact hsyn
    rw [Window,if_pos hsyn']
    exact h.dataAfterSyn hidx hsize hlook
  | false =>
    rw [hsyn,if_neg Bool.false_ne_true] at hlook h
    obtain ⟨rfl,hbefore⟩ := h
    obtain ⟨k,hk⟩ := List.getElem?_of_mem hidx
    have hklt : k<tx.length := (List.getElem?_eq_some_iff.mp hk).1
    have htx := hlen hsyn
    cases hany : d.anyPacketReceived with
    | false =>
      rw [hany,if_neg Bool.false_ne_true] at hbefore
      exact hbefore.dataBeforeSyn hnum hk (by omega) (by omega) hsyn hany hlook
    | true =>
      rw [hany,if_pos rfl] at hbefore
      obtain ⟨low,hlow⟩ := hbefore
      exact hlow.dataBeforeSyn hnum hk htx hsize hmax hpi hsyn hany hlook

theorem WindowAfter.next (h : d.WindowAfter isn tx n) (hnum : Numbered isn tx)
    (hpi : d.rxWndRing.producerIndex<d.rxWndRing.numElements) (hidx : d.nextIdx=some idx) :
    tx[n]?=some (d.rxPacketBuffers idx) := by
  have hslot : d.slot 0=some idx := (cyclicAt_zero (α := Option Nat) hpi).trans hidx
  obtain ⟨hmem,hseq⟩ := h.slots 0 (by omega) idx hslot
  obtain ⟨k,hk⟩ := List.getElem?_of_mem hmem
  have hklt : k<tx.length := (List.getElem?_eq_some_iff.mp hk).1
  have hn := h.le_length
  have hlt := hnum.length_lt
  have hsame : isn+.ofNat 32 k=isn+.ofNat 32 n := by
    rw [← hnum.sequenceNumber_eq k _ hk,← h.seq_eq]
    simpa [seqOf] using hseq
  rwa [seq_inj (by omega) (by omega) hsame] at hk

theorem WindowAfter.deplete (h : d.WindowAfter isn tx n) (hn : n<tx.length)
    (hpi : d.rxWndRing.producerIndex<d.rxWndRing.numElements) : (d.deplete idx).WindowAfter isn tx (n+1) := by
  have hone : (.ofNat 32 1 : Seq)=1 := rfl
  refine ⟨?_,hn,fun j hj i hslot => ?_⟩
  · show d.recvPktSeq+1=_
    rw [h.seq_eq,ofNat_add,BitVec.add_assoc,hone]
  · have hj' : j<d.rxWndRing.buf.length := by simpa [Socket.deplete,producerAdvance,numElements] using hj
    have hadvance : cyclicAt (d.rxWndRing.buf.set d.rxWndRing.producerIndex none)
        ((d.rxWndRing.producerIndex+1)%d.rxWndRing.buf.length) j=some i := by
      rw [← hslot,slot]
      simp [Socket.deplete,producerAdvance,wrapIndex,numElements]
    rw [cyclicAt_set_advance hpi hj'] at hadvance
    split_ifs at hadvance with hlast
    have hlt : j+1<d.rxWndRing.numElements := Nat.lt_of_le_of_ne hj' hlast
    obtain ⟨hmem,hseq⟩ := h.slots (j+1) hlt i hadvance
    refine ⟨hmem,hseq.trans ?_⟩
    show _=d.recvPktSeq+1+.ofNat 32 j
    rw [Nat.add_comm,ofNat_add,BitVec.add_assoc,hone]
end Socket
end P4Benchmarks.Ndp
