import P4Benchmarks.Ndp.SendWindow
import P4Benchmarks.Ndp.Window
/-! # The window of the sender is exact -/
namespace P4Benchmarks.Ndp
open Lib List Function Ndp.Ring
def Ring.Queue {α : Type} [Inhabited α] (r : Ring α) (l : List α) : Prop := r.Holds r.consumerIndex [] l
namespace Ring.Queue
variable {α : Type} [Inhabited α] {r : Ring α} {l : List α} {v : α}
theorem consume (h : r.Queue (v::l)) : r.consume.1=v ∧ r.consume.2.Queue l :=
  ⟨h.getElementAt_consumerIndex,h.consumerAdvance.look⟩

theorem produce (h : r.Queue l) (hroom : l.length+1 < r.numElements) : (r.produce v).Queue (l++[v]) :=
  Holds.produce h (by simpa using hroom)
end Ring.Queue
variable {params : TxParams}
namespace TxSystem
variable {s : TxSystem} {k : Nat}
structure Numbers (params : TxParams) (s : TxSystem) (k : Nat) : Prop where
  nowrap : s.sock.sendIsn.toNat+s.opened<2^32
  next : s.sock.txNextSeqNumber=s.sock.sendIsn+BitVec.ofNat 32 s.opened
  first : s.sock.txFirstNotAck=s.sock.sendIsn+BitVec.ofNat 32 k
  first_le : k ≤ s.opened
  window : s.opened≤k+params.numTxPacketBuffers
  acked_lt : ∀ j ∈ s.acked, j < s.opened
  acked_before : ∀ j<k, j ∈ s.acked

theorem seq_eq_position (s : TxSystem) (seq : Seq) : seq=s.sock.sendIsn+BitVec.ofNat 32 (s.position seq) := by
  rw [position,BitVec.ofNat_toNat,BitVec.setWidth_eq,BitVec.add_comm,BitVec.sub_add_cancel]

theorem position_lt (s : TxSystem) (seq : Seq) : s.position seq<2^32 := (seq-s.sock.sendIsn).isLt

theorem position_number (s : TxSystem) {j : Nat} (hj : j<2^32) : s.position (s.sock.sendIsn+BitVec.ofNat 32 j)=j := by
  rw [position,BitVec.add_comm,BitVec.add_sub_cancel,BitVec.toNat_ofNat,Nat.mod_eq_of_lt hj]
namespace Numbers
variable (hs : Numbers params s k)
include hs
theorem opened_lt : s.opened<2^32 := by
  have hnowrap := hs.nowrap
  omega

theorem toNat_next : s.sock.txNextSeqNumber.toNat=s.sock.sendIsn.toNat+s.opened := by
  have hnowrap := hs.nowrap
  rw [hs.next,BitVec.toNat_add,BitVec.toNat_ofNat]
  omega

theorem toNat_first : s.sock.txFirstNotAck.toNat=s.sock.sendIsn.toNat+k := by
  have hnowrap := hs.nowrap
  have hle := hs.first_le
  rw [hs.first,BitVec.toNat_add,BitVec.toNat_ofNat]
  omega
variable (seq : Seq)
theorem toNat_sub_first : (seq-s.sock.txFirstNotAck).toNat =
      if k ≤ s.position seq then s.position seq-k else 2^32-(k-s.position seq) := by
  have hlt := hs.opened_lt
  have hle := hs.first_le
  rw [hs.first]
  nth_rewrite 1 [s.seq_eq_position seq]
  exact toNat_seq_sub (s.position_lt seq) (by omega)

theorem toNat_sub_next : (seq-s.sock.txNextSeqNumber).toNat =
      if s.opened ≤ s.position seq then s.position seq-s.opened
      else 2^32-(s.opened-s.position seq) := by
  rw [hs.next]
  nth_rewrite 1 [s.seq_eq_position seq]
  exact toNat_seq_sub (s.position_lt seq) hs.opened_lt

theorem inWindow_iff : (¬(seq-s.sock.txFirstNotAck).toNat > ndpMaxSeqDiff ∧
      ¬(seq-s.sock.txNextSeqNumber).toNat≤ndpMaxSeqDiff) ↔
      k ≤ s.position seq ∧ s.position seq < s.opened := by
  have hle := hs.first_le
  have hwindow := hs.window
  have hbuffers := params.buffers_le
  rw [hs.toNat_sub_first,hs.toNat_sub_next]
  simp only [ndpMaxSeqDiff] at hbuffers ⊢
  split_ifs <;> omega

theorem waits_eq : s.sock.waits params ↔ s.sock.txNextSeqNumber=s.sock.remoteRwndEdge ∨
      (s.sock.sendIsn.toNat+k+params.numTxPacketBuffers)%2^32 ≤ s.sock.sendIsn.toNat+s.opened := by
  have hbuffers : params.numTxPacketBuffers<2^32 := lt_of_le_of_lt params.buffers_le (by decide)
  rw [TxSocket.waits,sendWaits,decide_eq_true_iff,ge_iff_le,BitVec.le_def,BitVec.toNat_add,
    BitVec.toNat_ofNat,hs.toNat_first,hs.toNat_next,Nat.mod_eq_of_lt hbuffers]

theorem toNat_window : (s.sock.txNextSeqNumber-s.sock.txFirstNotAck).toNat=s.opened-k := by
  have hfirst := hs.first_le
  have hopened := hs.opened_lt
  rw [hs.next,hs.first,toNat_seq_sub hopened (by omega),if_pos hfirst]

theorem waits_iff : (s.sock.waits params ↔ s.sock.txNextSeqNumber=s.sock.remoteRwndEdge ∨
      params.numTxPacketBuffers≤(s.sock.txNextSeqNumber-s.sock.txFirstNotAck).toNat) ↔
      s.sock.txNextSeqNumber=s.sock.remoteRwndEdge ∨ s.sock.txFirstNotAck.toNat+params.numTxPacketBuffers<2^32 := by
  have hnowrap := hs.nowrap
  have hle := hs.first_le
  have hbuffers : params.numTxPacketBuffers<2^32 := lt_of_le_of_lt params.buffers_le (by decide)
  rw [hs.waits_eq,hs.toNat_window,hs.toNat_first]
  by_cases hedge : s.sock.txNextSeqNumber=s.sock.remoteRwndEdge
  · simp [hedge]
  · simp only [hedge,false_or]
    by_cases hsum : s.sock.sendIsn.toNat+k+params.numTxPacketBuffers<2^32
    · omega
    · omega

theorem opened_lt_of_not_waits (hwaits : s.sock.waits params=false) :
    s.opened<k+params.numTxPacketBuffers ∧ s.sock.sendIsn.toNat+(s.opened+1)<2^32 := by
  have hnot : ¬s.sock.waits params := by simp [hwaits]
  rw [hs.waits_eq,not_or,not_le] at hnot
  omega
end Numbers

structure Bitmap (params : TxParams) (ring : Ring Bool) (k : Nat) (acked : Finset Nat) : Prop where
  numElements_eq : ring.numElements=params.numTxPacketBuffers+1
  index_lt : ring.producerIndex < ring.numElements
  bits : ∀ j < ring.numElements, cyclicAt ring.buf ring.producerIndex j=decide (k+j ∈ acked)
namespace Bitmap
variable {ring : Ring Bool} {acked : Finset Nat} (h : Bitmap params ring k acked)
include h
theorem getElementAt_eq : ring.getElementAt ring.producerIndex=decide (k ∈ acked) := by
  have hbit := h.bits 0 (Nat.zero_lt_of_lt h.index_lt)
  rwa [cyclicAt_zero h.index_lt,Nat.add_zero] at hbit

theorem set {j : Nat} (hj : j < ring.numElements) :
    Bitmap params (ring.setElementAtWrapped (ring.producerIndex+j) true) k (insert (k+j) acked) := by
  refine ⟨?_,?_,?_⟩
  · simpa using h.numElements_eq
  · simpa using h.index_lt
  · intro i hi
    simp only [setElementAtWrapped_eq,numElements_setElementAt] at hi
    show cyclicAt (ring.buf.set ((ring.producerIndex+j)%ring.buf.length) true) ring.producerIndex i=_
    by_cases hij : i=j
    · subst hij
      rw [cyclicAt_set_self hi]
      simp
    · rw [cyclicAt_set_ne hi hj (Ne.symm hij),h.bits i hi]
      simp [hij]

theorem advance (hacked : ∀ j ∈ acked, j<k+ring.numElements) :
    Bitmap params ((ring.setElementAt ring.producerIndex false).producerAdvance 1) (k+1) acked := by
  have hpos : 0 < ring.numElements := Nat.zero_lt_of_lt h.index_lt
  have hsize : ((ring.setElementAt ring.producerIndex false).producerAdvance 1).numElements =
      ring.numElements := numElements_setElementAt ..
  have hindex : ((ring.setElementAt ring.producerIndex false).producerAdvance 1).producerIndex =
      (ring.producerIndex+1)%ring.buf.length := by
    simp [producerAdvance,wrapIndex,numElements]
  refine ⟨hsize.trans h.numElements_eq,?_,?_⟩
  · rw [hsize,hindex]
    exact Nat.mod_lt _ hpos
  · intro j hj
    rw [hsize] at hj
    rw [hindex]
    show cyclicAt (ring.buf.set ring.producerIndex false) _ j=_
    rw [cyclicAt_set_advance h.index_lt hj]
    split_ifs with hlast
    · have hout : k+1+j ∉ acked := fun hmem => by
        have hlt := hacked _ hmem
        simp only [numElements] at hlt
        omega
      simp [hout]
    · have hlt : j+1 < ring.numElements := by
        simp only [numElements] at hj ⊢
        omega
      rw [h.bits (j+1) hlt]
      congr 2
      omega
end Bitmap

theorem slide_spec {d : TxSocket} {acked : Finset Nat} {opened fuel : Nat}
    (hbitmap : Bitmap params d.txWndRing k acked) (hacked : ∀ j ∈ acked, j<opened)
    (hwindow : opened≤k+params.numTxPacketBuffers) (hbefore : ∀ j<k, j ∈ acked)
    (hfirst : d.txFirstNotAck=d.sendIsn+BitVec.ofNat 32 k) (hfuel : opened<k+fuel) :
    ∃ ring k', d.slide fuel = some { d with
          txWndRing := ring
          txFirstNotAck := d.sendIsn+BitVec.ofNat 32 k' } ∧
      Bitmap params ring k' acked ∧ k≤k' ∧ k' ∉ acked ∧ ∀ j<k', j ∈ acked := by
  induction fuel generalizing d k with
  | zero =>
    have hself := hacked opened (hbefore opened hfuel)
    omega
  | succ fuel ih =>
    rw [TxSocket.slide,hbitmap.getElementAt_eq]
    by_cases hk : k ∈ acked
    · have hnext : d.txFirstNotAck+1=d.sendIsn+.ofNat 32 (k+1) := by
        rw [hfirst,BitVec.ofNat_add,BitVec.add_assoc]
        rfl
      have hbitmap' := hbitmap.advance fun j hj => by
        have hlt := hacked j hj
        have hsize := hbitmap.numElements_eq
        omega
      have hbefore' : ∀ j<k+1, j ∈ acked := by
        intro j hj
        rcases Nat.lt_succ_iff_lt_or_eq.mp hj with hj | rfl
        · exact hbefore j hj
        · exact hk
      obtain ⟨ring,k',hslide,hring,hle,hnot,hbefore''⟩ := ih (d := { d with
          txWndRing := (d.txWndRing.setElementAt d.txWndRing.producerIndex false).producerAdvance 1
          txFirstNotAck := d.txFirstNotAck+1 })
        hbitmap' (by omega) hbefore' hnext (by omega)
      refine ⟨ring,k',?_,hring,by omega,hnot,hbefore''⟩
      simp only [hk,decide_true,if_true]
      exact hslide
    · refine ⟨d.txWndRing,k,?_,hbitmap,le_rfl,hk,hbefore⟩
      simp [hk,decide_false,Bool.false_eq_true,← hfirst]

structure Buffers (params : TxParams) (isn : Seq) (opened : Nat) (acked : Finset Nat)
    (ring : Ring Nat) (inUse : Option Nat) (pkbs : Nat → TxPkb) (avail : List Nat) : Prop where
  numElements_eq : ring.numElements=params.numTxPacketBuffers+1
  queue : ring.Queue avail
  nodup : avail.Nodup
  mem_avail : ∀ i, i ∈ avail ↔ i<params.numTxPacketBuffers ∧ (pkbs i).libInUse=false
  used : ∀ i<params.numTxPacketBuffers, (pkbs i).libInUse →
    ∃ j<opened, j ∉ acked ∧ (pkbs i).sequenceNumber=isn+BitVec.ofNat 32 j
  distinct : ∀ i<params.numTxPacketBuffers, ∀ i'<params.numTxPacketBuffers, (pkbs i).libInUse → (pkbs i').libInUse →
    (pkbs i).sequenceNumber=(pkbs i').sequenceNumber → i=i'
  complete : ∀ j<opened, j ∉ acked → ∃ i<params.numTxPacketBuffers,
    (pkbs i).libInUse ∧ (pkbs i).sequenceNumber=isn+BitVec.ofNat 32 j
  ready : ∀ i<params.numTxPacketBuffers, (pkbs i).libReadyToSend ↔ (pkbs i).libInUse ∧ inUse≠some i
  inUse_mem : ∀ i, inUse=some i → i<params.numTxPacketBuffers ∧ (pkbs i).libInUse
namespace Buffers
variable {isn : Seq} {opened : Nat} {acked : Finset Nat} {ring : Ring Nat} {inUse : Option Nat}
  {pkbs : Nat → TxPkb} {avail : List Nat} {i : Nat} {pb : TxPkb}

theorem touch (h : Buffers params isn opened acked ring inUse pkbs avail) (huse : pb.libInUse=(pkbs i).libInUse)
    (hseq : pb.sequenceNumber=(pkbs i).sequenceNumber) (hready : pb.libReadyToSend=(pkbs i).libReadyToSend) :
    Buffers params isn opened acked ring inUse (update pkbs i pb) avail := by
  have huse' : ∀ i', (update pkbs i pb i').libInUse=(pkbs i').libInUse := by
    intro i'
    by_cases hi : i'=i <;> simp [hi,huse]
  have hseq' : ∀ i', (update pkbs i pb i').sequenceNumber=(pkbs i').sequenceNumber := by
    intro i'
    by_cases hi : i'=i <;> simp [hi,hseq]
  have hready' : ∀ i', (update pkbs i pb i').libReadyToSend=(pkbs i').libReadyToSend := by
    intro i'
    by_cases hi : i'=i <;> simp [hi,hready]
  refine ⟨h.numElements_eq,h.queue,h.nodup,?_,?_,?_,?_,?_,?_⟩
  · simpa [huse'] using h.mem_avail
  · simpa [huse',hseq'] using h.used
  · simpa [huse',hseq'] using h.distinct
  · simpa [huse',hseq'] using h.complete
  · simpa [huse',hready'] using h.ready
  · simpa [huse'] using h.inUse_mem

theorem send (h : Buffers params isn opened acked ring (some i) pkbs avail) (huse : pb.libInUse=(pkbs i).libInUse)
    (hseq : pb.sequenceNumber=(pkbs i).sequenceNumber) (hready : pb.libReadyToSend) :
    Buffers params isn opened acked ring none (update pkbs i pb) avail := by
  have hother : ∀ i'≠i, update pkbs i pb i'=pkbs i' := fun i' hi' =>
    Function.update_of_ne hi' ..
  obtain ⟨hnum,hqueue,hnodup,hmem,hused,hdistinct,hcomplete,hreadys,hinUse⟩ := h
  refine ⟨hnum,hqueue,hnodup,?_,?_,?_,?_,?_,?_⟩ <;> grind

theorem take (h : Buffers params isn opened acked ring none pkbs (i::avail)) (hacked : ∀ j ∈ acked, j<opened)
    (hopened : opened<2^32) (huse : pb.libInUse) (hseq : pb.sequenceNumber=isn+BitVec.ofNat 32 opened)
    (hready : pb.libReadyToSend=(pkbs i).libReadyToSend) :
    ring.consume.1=i ∧ Buffers params isn (opened+1) acked ring.consume.2 (some i)
    (update pkbs i pb) avail := by
  obtain ⟨hnum,hqueue,hnodup,hmem,hused,hdistinct,hcomplete,hreadys,hinUse⟩ := h
  obtain ⟨hconsume,hqueue'⟩ := hqueue.consume
  obtain ⟨hi,hfree⟩ := (hmem i).mp mem_cons_self
  have hnew : ∀ i'<params.numTxPacketBuffers, (pkbs i').libInUse → (pkbs i').sequenceNumber≠isn+.ofNat 32 opened := by
    intro i' hi' huse' heq
    obtain ⟨j,hj,-,hseqj⟩ := hused i' hi' huse'
    have hinj := seq_inj (by omega) hopened (hseqj.symm.trans heq)
    omega
  refine ⟨hconsume,hnum,hqueue',(nodup_cons.mp hnodup).2,?_,?_,?_,?_,?_,?_⟩
  · grind
  · grind
  · grind
  · intro j hj hjacked
    rcases Nat.lt_succ_iff_lt_or_eq.mp hj with hj | rfl
    · obtain ⟨i',hi',huse',hseq'⟩ := hcomplete j hj hjacked
      exact ⟨i',hi',by grind⟩
    · exact ⟨i,hi,by grind⟩
  · grind
  · grind
variable (h : Buffers params isn opened acked ring inUse pkbs avail)
include h
theorem notMem_avail (huse : (pkbs i).libInUse) : i ∉ avail := by
  intro hmem
  have hfree := ((h.mem_avail i).mp hmem).2
  simp [huse] at hfree

theorem room (hi : i<params.numTxPacketBuffers) (huse : (pkbs i).libInUse) :
    ring.producerAvailable≠0 ∧ avail.length+1 < ring.numElements := by
  have hsub : (i::avail) ⊆ List.range params.numTxPacketBuffers := by
    intro i' hi'
    rcases mem_cons.mp hi' with rfl | hi'
    · exact mem_range.mpr hi
    · exact mem_range.mpr ((h.mem_avail i').mp hi').1
  have hlength := ((nodup_cons.mpr ⟨h.notMem_avail huse,h.nodup⟩).subperm hsub).length_le
  rw [length_cons,length_range] at hlength
  have hnum := h.numElements_eq
  have havail := (Ring.Holds.available_eq h.queue).2
  constructor <;> omega

theorem release (hi : i<params.numTxPacketBuffers) (huse : (pkbs i).libInUse) {p : Nat}
    (hp : (pkbs i).sequenceNumber=isn+BitVec.ofNat 32 p) (hopened : opened<2^32) (hpo : p<opened)
    (hinUse : inUse≠some i) (huse' : pb.libInUse=false) (hready' : pb.libReadyToSend=false) :
    Buffers params isn opened (insert p acked) (ring.produce i) inUse (update pkbs i pb) (avail++[i]) := by
  have hother : ∀ i'≠i, update pkbs i pb i'=pkbs i' := fun i' hi' =>
    Function.update_of_ne hi' ..
  have hout := h.notMem_avail huse
  have hqueue' := h.queue.produce (v := i) (h.room hi huse).2
  obtain ⟨hnum,hqueue,hnodup,hmem,hused,hdistinct,hcomplete,hreadys,hinUses⟩ := h
  refine ⟨(numElements_produce ..).trans hnum,hqueue',?_,?_,?_,?_,?_,?_,?_⟩
  · simpa [nodup_append,hnodup] using fun i' hi' => ne_of_mem_of_not_mem hi' hout
  · grind
  · intro i' hi' huse''
    have hne : i'≠i := by
      rintro rfl
      simp [huse'] at huse''
    rw [hother i' hne] at huse'' ⊢
    obtain ⟨j,hj,hjacked,hseqj⟩ := hused i' hi' huse''
    have hjp : j≠p := by
      rintro rfl
      exact hne (hdistinct i' hi' i hi huse'' huse (hseqj.trans hp.symm))
    exact ⟨j,hj,by simp [hjp,hjacked],hseqj⟩
  · grind
  · intro j hj hjacked
    obtain ⟨hjp,hjacked⟩ := not_or.mp (mt Finset.mem_insert.mpr hjacked)
    obtain ⟨i',hi',huse'',hseqj⟩ := hcomplete j hj hjacked
    have hne : i'≠i := by
      rintro rfl
      exact hjp (seq_inj (by omega) (by omega) (hseqj.symm.trans hp))
    exact ⟨i',hi',by grind⟩
  · grind
  · grind
end Buffers
end TxSystem
end P4Benchmarks.Ndp
