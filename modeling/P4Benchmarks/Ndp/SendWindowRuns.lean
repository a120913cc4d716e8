import Mathlib.Order.Interval.Finset.Nat
import P4Benchmarks.Ndp.SendWindowExact
/-! # Runs of the sender -/
namespace P4Benchmarks.Ndp
open Lib List Option Function TxSocket Ndp.Ring
namespace TxSystem
variable {params : TxParams} {s : TxSystem} {k : Nat} {avail : List Nat}

structure Tracked (params : TxParams) (s : TxSystem) (k : Nat) (avail : List Nat) : Prop where
  numbers : Numbers params s k
  notMem : k ∉ s.acked
  bitmap : Bitmap params s.sock.txWndRing k s.acked
  buffers : Buffers params s.sock.sendIsn s.opened s.acked s.sock.txAvPkbRing s.sock.txPkbInUse
    s.sock.txPacketBuffers avail

theorem foldl_resetTxPacketBuffer (d : TxSocket) {n : Nat} (hn : n≤params.numTxPacketBuffers)
    (hring : d.txAvPkbRing=.init (params.numTxPacketBuffers+1) 0) :
    ∃ pkbs, (List.range n).foldl (resetTxPacketBuffer params) d =
        { d with
          txAvPkbRing := .filled (List.range n) (List.replicate (params.numTxPacketBuffers+1-n) 0)
          txPacketBuffers := pkbs } ∧
      ∀ i<n, (pkbs i).libInUse=false ∧ (pkbs i).libReadyToSend=false := by
  induction n with
  | zero =>
    refine ⟨d.txPacketBuffers,?_,by simp⟩
    have hempty : filled (List.range 0) (List.replicate (params.numTxPacketBuffers+1-0) 0)=d.txAvPkbRing := hring.symm
    rw [hempty]
    rfl
  | succ n ih =>
    obtain ⟨pkbs,hfold,hfree⟩ := ih (by omega)
    have hrep : List.replicate (params.numTxPacketBuffers+1-n) 0 =
        0::List.replicate (params.numTxPacketBuffers+1-(n+1)) 0 := by
      rw [← replicate_succ]
      congr 1
      omega
    refine ⟨update pkbs n
      { pkbs n with
        libInUse := false
        libReadyToSend := false
        bytesLeft := params.maxPayload },?_,?_⟩
    · rw [range_succ,foldl_append,hfold,foldl_cons,foldl_nil,
        resetTxPacketBuffer,setPkb,if_pos,hrep,
        produce_filled _ (by simp; omega)]
      rw [producerAvailable_filled,length_replicate]
      omega
    · intro i hi
      rcases Nat.lt_succ_iff_lt_or_eq.mp hi with hi | rfl
      · rw [Function.update_of_ne (by omega)]
        exact hfree i hi
      · simp

theorem tracked_init (sendIsn : Seq) (pkbs : Nat → TxPkb) :
    Tracked params (init params sendIsn pkbs) 0 (List.range params.numTxPacketBuffers) := by
  obtain ⟨pkbs',hfold,hfree⟩ := foldl_resetTxPacketBuffer
    { sendIsn := sendIsn
      txNextSeqNumber := sendIsn
      txFirstNotAck := sendIsn
      remoteRwndEdge := initialEdge sendIsn
      txPkbInUse := none
      txAvPkbRing := .init (params.numTxPacketBuffers+1) 0
      txWndRing := .init (params.numTxPacketBuffers+1) false
      txPacketBuffers := pkbs
      txRing := [] } (Nat.le_refl params.numTxPacketBuffers) rfl
  rw [init,TxSocket.init,hfold]
  have hisn := sendIsn.isLt
  refine ⟨⟨by simpa using hisn,by simp,by simp,by simp,by simp,by simp,by simp⟩,by simp,
    ⟨?_,?_,?_⟩,⟨?_,?_,nodup_range,?_,?_,?_,?_,?_,?_⟩⟩
  · simp [Ring.init,numElements]
  · simp [Ring.init,numElements]
  · intro j hj
    have hlt : (0+j)%(List.replicate (params.numTxPacketBuffers+1) false).length < params.numTxPacketBuffers+1 := by
      rw [length_replicate]
      exact Nat.mod_lt _ (Nat.succ_pos _)
    simp only [Ring.init,cyclicAt,getD_eq_getElem?_getD,List.getElem?_replicate,if_pos hlt]
    simp
  · simp [numElements,filled]
  · exact holds_filled (by simp)
  · intro i
    constructor <;> grind
  all_goals grind
namespace Tracked
variable (h : Tracked params s k avail)
include h
theorem keep {edge : Seq} {inUse : Option Nat} {pkbs : Nat → TxPkb} {tx : List Nat}
    (hbuffers : Buffers params s.sock.sendIsn s.opened s.acked s.sock.txAvPkbRing inUse pkbs avail) :
    Tracked params { s with sock :=
      { s.sock with remoteRwndEdge := edge, txPkbInUse := inUse, txPacketBuffers := pkbs, txRing := tx } } k avail :=
  ⟨⟨h.numbers.nowrap,h.numbers.next,h.numbers.first,h.numbers.first_le,h.numbers.window,
    h.numbers.acked_lt,h.numbers.acked_before⟩,h.notMem,h.bitmap,hbuffers⟩

theorem fill {i left : Nat} {onlySendFull : Bool} (hinUse : s.sock.txPkbInUse=some i) :
    Tracked params { s with sock := s.sock.fillPkb i left onlySendFull } k avail := by
  have hbuffers := h.buffers
  rw [hinUse] at hbuffers
  rw [fillPkb]
  split_ifs with hsend
  · exact h.keep (hbuffers.send rfl rfl rfl)
  · exact h.keep (h.buffers.touch rfl rfl rfl)

theorem avail_ne_nil (hopened : s.opened<k+params.numTxPacketBuffers) : avail≠[] := by
  rintro rfl
  have hlt := h.numbers.opened_lt
  have hle := h.numbers.first_le
  have hinUse : ∀ i<params.numTxPacketBuffers, (s.sock.txPacketBuffers i).libInUse := by
    intro i hi
    have hnot := mt (h.buffers.mem_avail i).mpr (not_mem_nil)
    simpa [hi] using hnot
  have hmaps : ∀ i ∈ Finset.range params.numTxPacketBuffers,
      s.position (s.sock.txPacketBuffers i).sequenceNumber ∈ Finset.Ico k s.opened := by
    intro i hi
    obtain ⟨j,hj,hjacked,hseq⟩ := h.buffers.used i (Finset.mem_range.mp hi) (hinUse i (Finset.mem_range.mp hi))
    rw [hseq,s.position_number (by omega),Finset.mem_Ico]
    exact ⟨Nat.le_of_not_lt fun hjk => hjacked (h.numbers.acked_before j hjk),hj⟩
  obtain ⟨i,hi,i',hi',hne,heq⟩ := Finset.exists_ne_map_eq_of_card_lt_of_maps_to (by simp; omega) hmaps
  have hseq : (s.sock.txPacketBuffers i).sequenceNumber = (s.sock.txPacketBuffers i').sequenceNumber := by
    rw [s.seq_eq_position (s.sock.txPacketBuffers i).sequenceNumber,heq,← s.seq_eq_position]
  rw [Finset.mem_range] at hi hi'
  exact hne (h.buffers.distinct i hi i' hi' (hinUse i hi) (hinUse i' hi') hseq)

theorem openPkb (hinUse : s.sock.txPkbInUse=none) (hwaits : s.sock.waits params=false) :
    s.sock.openPkb.1.txPkbInUse=some s.sock.openPkb.2 ∧
      ∃ avail', Tracked params { s with sock := s.sock.openPkb.1, opened := s.opened+1 } k avail' := by
  obtain ⟨hopened,hnowrap⟩ := h.numbers.opened_lt_of_not_waits hwaits
  obtain ⟨i,avail',rfl⟩ := exists_cons_of_ne_nil (h.avail_ne_nil hopened)
  have hbuffers := h.buffers
  rw [hinUse] at hbuffers
  let pb : TxPkb :=
    { s.sock.txPacketBuffers i with
      libInUse := true
      sequenceNumber := s.sock.txNextSeqNumber }
  obtain ⟨hconsume,htaken⟩ := hbuffers.take h.numbers.acked_lt h.numbers.opened_lt
    (show pb.libInUse from rfl) h.numbers.next rfl
  subst hconsume
  have hnext : s.sock.txNextSeqNumber+1=s.sock.sendIsn+.ofNat 32 (s.opened+1) := by
    rw [h.numbers.next,BitVec.ofNat_add,BitVec.add_assoc]
    rfl
  refine ⟨rfl,avail',⟨hnowrap,hnext,h.numbers.first,Nat.le_succ_of_le h.numbers.first_le,
    hopened,?_,h.numbers.acked_before⟩,h.notMem,h.bitmap,htaken⟩
  intro j hj
  exact Nat.lt_succ_of_lt (h.numbers.acked_lt j hj)
end Tracked

theorem updateRemoteRwndEdge_eq (d : TxSocket) (seq recv : Seq) :
    ∃ edge, d.updateRemoteRwndEdge seq recv={ d with remoteRwndEdge := edge } := by
  rw [updateRemoteRwndEdge]
  split_ifs
  · exact ⟨_,rfl⟩
  · exact ⟨d.remoteRwndEdge,rfl⟩

theorem findTxPkbForSeq_some {d : TxSocket} {seq : Seq} {i : Nat} (h : d.findTxPkbForSeq params seq=some i) :
    i<params.numTxPacketBuffers ∧ (d.txPacketBuffers i).libInUse ∧ (d.txPacketBuffers i).sequenceNumber=seq := by
  have hmem := mem_of_find?_eq_some h
  have hprop := List.find?_some h
  simpa using And.intro (mem_range.mp hmem) hprop

theorem findTxPkbForSeq_none {d : TxSocket} {seq : Seq} (h : d.findTxPkbForSeq params seq=none) {i : Nat}
    (hi : i<params.numTxPacketBuffers) (huse : (d.txPacketBuffers i).libInUse) :
    (d.txPacketBuffers i).sequenceNumber≠seq := by
  have hprop := List.find?_eq_none.mp h i (mem_range.mpr hi)
  simpa [huse] using hprop
namespace Tracked
theorem recordAck_eq (h : Tracked params s k avail) {i p : Nat} {dSeq : Seq} (edge : Seq)
    (hi : i<params.numTxPacketBuffers) (huse : (s.sock.txPacketBuffers i).libInUse)
    (hkp : k≤p) (hp : p < s.opened) (hdSeq : dSeq.toNat=p-k) :
    ∃ ring k', recordAck params { s.sock with remoteRwndEdge := edge } dSeq i = some { s.sock with
          remoteRwndEdge := edge
          txFirstNotAck := s.sock.sendIsn+BitVec.ofNat 32 k'
          txWndRing := ring
          txAvPkbRing := s.sock.txAvPkbRing.produce i
          txPacketBuffers := update s.sock.txPacketBuffers i
            { s.sock.txPacketBuffers i with
              libInUse := false
              libReadyToSend := false
              bytesLeft := params.maxPayload } } ∧
      Bitmap params ring k' (insert p s.acked) ∧ k≤k' ∧ k' ∉ insert p s.acked ∧
      ∀ j<k', j ∈ insert p s.acked := by
  have hwindow := h.numbers.window
  have hsize := h.bitmap.numElements_eq
  have hset := h.bitmap.set (j := p-k) (by omega)
  rw [Nat.add_sub_cancel' hkp] at hset
  obtain ⟨ring,k',hslide,hrest⟩ := slide_spec (d := { s.sock with
      remoteRwndEdge := edge
      txWndRing := s.sock.txWndRing.setElementAtWrapped (s.sock.txWndRing.producerIndex+(p-k)) true
      txAvPkbRing := s.sock.txAvPkbRing.produce i
      txPacketBuffers := update s.sock.txPacketBuffers i
        { s.sock.txPacketBuffers i with
          libInUse := false
          libReadyToSend := false
          bytesLeft := params.maxPayload } })
    hset
    (fun j hj => by
      rcases Finset.mem_insert.mp hj with rfl | hj
      · exact hp
      · exact h.numbers.acked_lt j hj)
    hwindow (fun j hj => Finset.mem_insert_of_mem (h.numbers.acked_before j hj)) h.numbers.first
    (by omega : s.opened<k+(params.numTxPacketBuffers+1))
  refine ⟨ring,k',?_,hrest⟩
  rw [recordAck,resetTxPacketBuffer,setPkb,if_pos (h.buffers.room hi huse).1,hdSeq]
  exact hslide
end Tracked

inductive AckEffect (params : TxParams) (s : TxSystem) (k : Nat) (isAck : Bool) (aSeq : Seq) : TxSystem → Prop
  -- The number is outside the window, or acknowledged already.
  | edge (edge : Seq)
      (hold : s.position aSeq < s.opened → s.position aSeq ∈ s.acked) :
    AckEffect params s k isAck aSeq { s with sock := { s.sock with remoteRwndEdge := edge } }
  | nack (i : Nat) (hNack : isAck=false) :
    AckEffect params s k isAck aSeq
      { s with sock := s.sock.setPkb i { s.sock.txPacketBuffers i with timeoutRef := 0 } }
  | ack {i p k' : Nat} {ring : Ring Bool} (edge : Seq) (hAck : isAck)
      (hi : i<params.numTxPacketBuffers) (huse : (s.sock.txPacketBuffers i).libInUse)
      (hseq : (s.sock.txPacketBuffers i).sequenceNumber=aSeq)
      (hp : aSeq=s.sock.sendIsn+BitVec.ofNat 32 p) (hopened : p < s.opened)
      (hbitmap : Bitmap params ring k' (insert p s.acked)) (hk : k≤k')
      (hnotMem : k' ∉ insert p s.acked) (hbefore : ∀ j<k', j ∈ insert p s.acked) :
    AckEffect params s k isAck aSeq
      { s with
        sock :=
          { s.sock with
            remoteRwndEdge := edge
            txFirstNotAck := s.sock.sendIsn+BitVec.ofNat 32 k'
            txWndRing := ring
            txAvPkbRing := s.sock.txAvPkbRing.produce i
            txPacketBuffers := update s.sock.txPacketBuffers i
              { s.sock.txPacketBuffers i with
                libInUse := false
                libReadyToSend := false
                bytesLeft := params.maxPayload } }
        acked := insert p s.acked }

theorem Tracked.checkAck_effect (h : Tracked params s k avail) (isAck : Bool) (aSeq recvWindow : Seq) :
    ∃ s', s.step params (.checkAck isAck aSeq recvWindow)=some s' ∧ AckEffect params s k isAck aSeq s' := by
  have hwindow := h.numbers.inWindow_iff aSeq
  obtain ⟨edge,hedge⟩ := updateRemoteRwndEdge_eq s.sock aSeq recvWindow
  -- The acknowledged packets stay the same unless the number is new.
  have hsame : (s.position aSeq < s.opened → s.position aSeq ∈ s.acked) →
      (if isAck ∧ s.position aSeq < s.opened then insert (s.position aSeq) s.acked else s.acked) = s.acked := by
    intro hold
    split_ifs with hin
    · exact Finset.insert_eq_self.mpr (hold hin.2)
    · rfl
  have hout : ¬(k ≤ s.position aSeq ∧ s.position aSeq < s.opened) →
      s.position aSeq < s.opened → s.position aSeq ∈ s.acked := by
    intro hnot hlt
    exact h.numbers.acked_before _ (by omega)
  simp only [step,TxSocket.checkAck,hedge]
  by_cases hfirst : (aSeq-s.sock.txFirstNotAck).toNat > ndpMaxSeqDiff
  · have hold := hout fun hin => (hwindow.mpr hin).1 hfirst
    rw [if_pos hfirst,hsame hold]
    cases isAck
    · exact ⟨_,rfl,.edge s.sock.remoteRwndEdge hold⟩
    · exact ⟨_,rfl,.edge edge hold⟩
  by_cases hnext : (aSeq-s.sock.txNextSeqNumber).toNat≤ndpMaxSeqDiff
  · have hold := hout fun hin => (hwindow.mpr hin).2 hnext
    rw [if_neg hfirst,if_pos hnext,hsame hold]
    exact ⟨_,rfl,.edge s.sock.remoteRwndEdge hold⟩
  obtain ⟨hkp,hp⟩ := hwindow.mp ⟨hfirst,hnext⟩
  rw [if_neg hfirst,if_neg hnext]
  cases hfind : s.sock.findTxPkbForSeq params aSeq with
  | none =>
    have hold : s.position aSeq ∈ s.acked := by
      by_contra hnew
      obtain ⟨i,hi,huse,hseq⟩ := h.buffers.complete _ hp hnew
      exact findTxPkbForSeq_none hfind hi huse (hseq.trans (s.seq_eq_position aSeq).symm)
    rw [hsame fun _ => hold]
    cases isAck
    · exact ⟨_,rfl,.edge s.sock.remoteRwndEdge fun _ => hold⟩
    · exact ⟨_,rfl,.edge edge fun _ => hold⟩
  | some i =>
    obtain ⟨hi,huse,hseq⟩ := findTxPkbForSeq_some hfind
    cases isAck
    · exact ⟨_,rfl,.nack i rfl⟩
    · have hdSeq := h.numbers.toNat_sub_first aSeq
      rw [if_pos hkp] at hdSeq
      obtain ⟨ring,k',hrecord,hbitmap,hk,hnotMem,hbefore⟩ := h.recordAck_eq edge hi huse hkp hp hdSeq
      refine ⟨_,?_,.ack edge rfl hi huse hseq (s.seq_eq_position aSeq) hp hbitmap hk hnotMem hbefore⟩
      simp [hrecord,hp]

def NotFilling (s : TxSystem) : TxAction → Prop
  | .checkAck true aSeq _ => ∀ i ∈ s.sock.txPkbInUse, (s.sock.txPacketBuffers i).sequenceNumber≠aSeq
  | _ => True

instance (s : TxSystem) : DecidablePred s.NotFilling
  | .sendRound .. | .checkAck false .. => inferInstanceAs (Decidable True)
  | .checkAck true aSeq _ => inferInstanceAs
    (Decidable (∀ i ∈ s.sock.txPkbInUse, (s.sock.txPacketBuffers i).sequenceNumber≠aSeq))

def available (s : TxSystem) : List Nat :=
  cyclicSegment s.sock.txAvPkbRing.buf s.sock.txAvPkbRing.consumerIndex s.sock.txAvPkbRing.consumerAvailable

def outstanding (params : TxParams) (s : TxSystem) : List Nat :=
  (List.range params.numTxPacketBuffers).filter fun i => (s.sock.txPacketBuffers i).libReadyToSend

def Partitioned (params : TxParams) (s : TxSystem) : Prop :=
  (s.available++s.sock.txPkbInUse.toList++s.outstanding params).Perm (List.range params.numTxPacketBuffers)
namespace Tracked
variable (h : Tracked params s k avail)
include h
theorem available_eq : s.available=avail := Ring.Holds.free_eq h.buffers.queue

theorem partitioned : s.Partitioned params := by
  obtain ⟨-,-,hnodup,hmem,-,-,-,hready,hinUse⟩ := h.buffers
  rw [Partitioned,h.available_eq]
  apply (perm_ext_iff_of_nodup ?_ nodup_range).mpr
  · simp only [outstanding,mem_append,mem_filter,mem_toList,mem_range,
      hmem]
    grind
  · have hinUse_nodup : s.sock.txPkbInUse.toList.Nodup := by cases s.sock.txPkbInUse <;> simp
    have hout_nodup : (s.outstanding params).Nodup := nodup_range.filter _
    rw [nodup_append,nodup_append]
    refine ⟨⟨hnodup,hinUse_nodup,?_⟩,hout_nodup,?_⟩
    · grind
    · simp only [outstanding,mem_append,mem_filter,mem_toList,mem_range]
      grind

theorem step {a : TxAction} {s' : TxSystem} (hnotFilling : s.NotFilling a) (hstep : s.step params a=some s') :
    ∃ k' avail', Tracked params s' k' avail' := by
  cases a with
  | sendRound left onlySendFull =>
    simp only [TxSystem.step,TxSocket.sendRound] at hstep
    cases hinUse : s.sock.txPkbInUse with
    | some i =>
      simp [hinUse] at hstep
      subst hstep
      exact ⟨k,avail,h.fill hinUse⟩
    | none =>
      cases hwaits : s.sock.waits params with
      | true => simp [hinUse,hwaits] at hstep
      | false =>
        simp [hinUse,hwaits] at hstep
        subst hstep
        obtain ⟨hopen,avail',htracked⟩ := h.openPkb hinUse hwaits
        exact ⟨k,avail',htracked.fill hopen⟩
  | checkAck isAck aSeq recvWindow =>
    obtain ⟨t,ht,heffect⟩ := h.checkAck_effect isAck aSeq recvWindow
    obtain rfl : t=s' := some.inj (ht.symm.trans hstep)
    cases heffect with
    | edge edge hold => exact ⟨k,avail,h.keep h.buffers⟩
    | nack i hNack => exact ⟨k,avail,h.keep (h.buffers.touch rfl rfl rfl)⟩
    | @ack i p k' ring edge hAck hi huse hseq hp hopened hbitmap hk hnotMem hbefore =>
      subst hAck
      have hinUse : s.sock.txPkbInUse≠some i := fun hi' => hnotFilling i hi' hseq
      have hacked : ∀ j ∈ insert p s.acked, j < s.opened := by
        intro j hj
        rcases Finset.mem_insert.mp hj with rfl | hj
        · exact hopened
        · exact h.numbers.acked_lt j hj
      have hle : k' ≤ s.opened := Nat.le_of_not_lt fun hlt =>
        Nat.lt_irrefl _ (hacked _ (hbefore _ hlt))
      have hwindow := h.numbers.window
      exact ⟨k',avail++[i],⟨h.numbers.nowrap,h.numbers.next,rfl,hle,
        Nat.le_trans hwindow (Nat.add_le_add_right hk _),hacked,hbefore⟩,hnotMem,hbitmap,
        h.buffers.release hi huse (hseq.trans hp) h.numbers.opened_lt hopened hinUse rfl rfl⟩
end Tracked

theorem Tracked.not_partitioned (h : Tracked params s k avail) {a : TxAction} {s' : TxSystem}
    (hfilling : ¬s.NotFilling a) (hstep : s.step params a=some s') : ¬s'.Partitioned params := by
  cases a with
  | sendRound => exact absurd trivial hfilling
  | checkAck isAck aSeq recvWindow =>
    cases isAck with
    | false => exact absurd trivial hfilling
    | true =>
      simp only [NotFilling,mem_def,not_forall,not_not] at hfilling
      obtain ⟨i,hinUse,hseq⟩ := hfilling
      obtain ⟨hi,huse⟩ := h.buffers.inUse_mem i hinUse
      obtain ⟨t,ht,heffect⟩ := h.checkAck_effect true aSeq recvWindow
      obtain rfl : t=s' := some.inj (ht.symm.trans hstep)
      cases heffect with
      | edge edge hold =>
        obtain ⟨j,hj,hjacked,hseqj⟩ := h.buffers.used i hi huse
        have hposition : s.position aSeq=j := by
          rw [← hseq,hseqj]
          exact s.position_number (Nat.lt_trans hj h.numbers.opened_lt)
        rw [hposition] at hold
        exact absurd (hold hj) hjacked
      | nack i hNack => cases hNack
      | @ack i' p k' ring edge hAck hi' huse' hseq' =>
        obtain rfl := h.buffers.distinct i hi i' hi' huse huse' (hseq.trans hseq'.symm)
        intro hpart
        have hnodup := (hpart.nodup_iff).mpr nodup_range
        rw [nodup_append,nodup_append] at hnodup
        have hqueue := h.buffers.queue.produce (v := i) (h.buffers.room hi huse).2
        have havail := Ring.Holds.free_eq hqueue
        exact hnodup.1.2.2 i (by simp [available,havail]) i (by simp [hinUse]) rfl

theorem run_tracked {sendIsn : Seq} {pkbs : Nat → TxPkb} {run : List TxAction}
    (hnotFilling : EachStep (TxSystem.step params) NotFilling (init params sendIsn pkbs) run)
    (hrun : exec (TxSystem.step params) (init params sendIsn pkbs) run=some s) : ∃ k avail, Tracked params s k avail :=
  exec_invariant (I := fun s => ∃ k avail, Tracked params s k avail)
    (fun _ _ _ ⟨_,_,h⟩ hcond hstep => h.step hcond hstep)
    ⟨0,_,tracked_init sendIsn pkbs⟩ hrun hnotFilling

/-- The packets up to the first one without an ACK are acknowledged, each buffer is in one place, the
buffers that were handed over carry numbers without an ACK, and no packet takes a buffer that is
not there.  An ACK for the packet that is being filled breaks this, and the loop condition of
`ndp_send` is right exactly if its sum does not wrap around. -/
theorem sendWindow_exact (sendIsn : Seq) (pkbs : Nat → TxPkb) (run : List TxAction) (s : TxSystem)
    (hnotFilling : EachStep (TxSystem.step params) NotFilling (init params sendIsn pkbs) run)
    (hrun : exec (TxSystem.step params) (init params sendIsn pkbs) run=some s) :
    (∃ k ≤ s.opened, s.sock.txFirstNotAck=s.sock.sendIsn+BitVec.ofNat 32 k ∧ k ∉ s.acked ∧ ∀ j<k, j ∈ s.acked) ∧
      s.Partitioned params ∧
      (∀ i ∈ s.outstanding params, ∃ j < s.opened, j ∉ s.acked ∧
        (s.sock.txPacketBuffers i).sequenceNumber=s.sock.sendIsn+BitVec.ofNat 32 j) ∧
      (s.sock.txPkbInUse=none → s.sock.waits params=false → s.available≠[]) ∧
      (∀ isAck aSeq recvWindow, (s.step params (.checkAck isAck aSeq recvWindow)).isSome) ∧
      (∀ a s', s.step params a=some s' → (s'.Partitioned params ↔ s.NotFilling a)) ∧
      ((s.sock.waits params ↔ s.sock.txNextSeqNumber=s.sock.remoteRwndEdge ∨
          params.numTxPacketBuffers≤(s.sock.txNextSeqNumber-s.sock.txFirstNotAck).toNat) ↔
        s.sock.txNextSeqNumber=s.sock.remoteRwndEdge ∨ s.sock.txFirstNotAck.toNat+params.numTxPacketBuffers<2^32) := by
  obtain ⟨k,avail,h⟩ := run_tracked hnotFilling hrun
  refine ⟨⟨k,h.numbers.first_le,h.numbers.first,h.notMem,h.numbers.acked_before⟩,
    h.partitioned,?_,?_,?_,?_,h.numbers.waits_iff⟩
  · intro i hi
    rw [outstanding,mem_filter,mem_range] at hi
    exact h.buffers.used i hi.1 ((h.buffers.ready i hi.1).mp hi.2).1
  · intro _ hwaits
    rw [h.available_eq]
    exact h.avail_ne_nil (h.numbers.opened_lt_of_not_waits hwaits).1
  · intro isAck aSeq recvWindow
    obtain ⟨s',hstep,-⟩ := h.checkAck_effect isAck aSeq recvWindow
    simp [hstep]
  · intro a s' hstep
    refine ⟨fun hpart => ?_,fun hcond => ?_⟩
    · by_contra hcond
      exact h.not_partitioned hcond hstep hpart
    · obtain ⟨k',avail',h'⟩ := h.step hcond hstep
      exact h'.partitioned

private def twoBuffers : TxParams := ⟨2,2,by decide,by decide⟩
private def blankPkbs (_ : Nat) : TxPkb := ⟨false,false,0,0,0⟩

private def threePackets : List TxAction :=
  [.sendRound 3 false,.sendRound 1 false,.checkAck true 6 10,.checkAck true 5 10,.sendRound 1 true]

theorem threePackets_exact : ∃ s, exec (TxSystem.step twoBuffers) (init twoBuffers 5 blankPkbs) threePackets=some s ∧
      s.opened=3 ∧ s.Partitioned twoBuffers := by
  have hsome : (exec (TxSystem.step twoBuffers) (init twoBuffers 5 blankPkbs) threePackets).map
      (·.opened)=some 3 := by decide
  obtain ⟨s,hrun,hopened⟩ := map_eq_some_iff.mp hsome
  exact ⟨s,hrun,hopened,(sendWindow_exact 5 blankPkbs threePackets s (by decide) hrun).2.1⟩

/-- With the highest number as the first one nothing can be sent.  An ACK for the packet that is
being filled makes its buffer available. -/
theorem sendWindow_inexact : (init twoBuffers 0xffffffff blankPkbs).sock.waits twoBuffers ∧
      (init twoBuffers 0xffffffff blankPkbs).sock.txNextSeqNumber ≠
        (init twoBuffers 0xffffffff blankPkbs).sock.remoteRwndEdge ∧
      (init twoBuffers 0xffffffff blankPkbs).sock.txNextSeqNumber =
        (init twoBuffers 0xffffffff blankPkbs).sock.txFirstNotAck ∧
      (exec (TxSystem.step twoBuffers) (init twoBuffers 5 blankPkbs) [.sendRound 1 true,.checkAck true 5 10]).map
        (fun s => (s.available,s.sock.txPkbInUse))=some ([1,0],some 0) := by
  decide
end TxSystem
end P4Benchmarks.Ndp
