import P4Benchmarks.Ndp.Steps
/-!
# Who owns a receive buffer

Before the SYN, a second packet for an occupied slot loses the index there; `ndp_recv` gives a
buffer back before it copies the bytes.  Apart from these two steps, ownership is kept.
-/
namespace P4Benchmarks.Ndp
open Lib List Nat State Ndp.Ring
namespace Socket
variable {d d' : Socket} {idx : Nat}
def slotBeforeSyn (d : Socket) (idx : Nat) : Option Nat :=
  if !d.anyPacketReceived then some 0
  else if d.seqDiffBeforeSyn idx > ndpMaxSeqDiff then some (d.earlierIndex idx)
  else if d.seqDiffBeforeSyn idx+1 > ndpInitialRxWindowSize then none
  else some (d.rxWndRing.wrapIndex (d.rxWndRing.producerIndex+d.seqDiffBeforeSyn idx))

def FallsOnEmptySlot (d : Socket) (idx : Nat) : Prop :=
  d.synReceived ∨ ∀ pos ∈ d.slotBeforeSyn idx, d.rxWndRing.getElementAt pos=none

instance (d : Socket) (idx : Nat) : Decidable (d.FallsOnEmptySlot idx) := inferInstanceAs (Decidable (_ ∨ _))

inductive Moves (d d' : Socket) (idx : Nat) : Prop
  | freed (rxRing_eq : d'.rxRing=d.rxRing.produce idx) (rxWndRing_eq : d'.rxWndRing=d.rxWndRing)
  | placed (pos : Nat) (pos_lt : pos<d.rxWndRing.numElements)
    (rxRing_eq : d'.rxRing=d.rxRing)
    (buf_eq : d'.rxWndRing.buf=d.rxWndRing.buf.set pos (some idx))
    (index_lt : d'.rxWndRing.producerIndex<d.rxWndRing.numElements)
    (empty : d.FallsOnEmptySlot idx → d.rxWndRing.getElementAt pos=none)

theorem dataBeforeSyn_moves (hsyn : d.synReceived=false) (hpi : d.rxWndRing.producerIndex<d.rxWndRing.numElements)
    (h : d.dataBeforeSyn idx=some d') : Moves d d' idx := by
  have hpos : 0<d.rxWndRing.numElements := zero_lt_of_lt hpi
  have hempty (pos : Nat) (hslot : d.slotBeforeSyn idx=some pos)
      (hfalls : d.FallsOnEmptySlot idx) : d.rxWndRing.getElementAt pos=none := by
    rcases hfalls with hfalls | hfalls
    · rw [hsyn] at hfalls
      cases hfalls
    · exact hfalls pos hslot
  rw [dataBeforeSyn] at h
  split_ifs at h with hany hearly hexit hfar
  · obtain ⟨a,rfl⟩ := acceptBeforeSyn_eq_some h
    refine .placed 0 hpos (by simp) (by simp) (by simpa using hpi) (hempty 0 ?_)
    rw [slotBeforeSyn,if_pos hany]
  · obtain ⟨a,rfl⟩ := acceptBeforeSyn_eq_some h
    have hlt : d.earlierIndex idx<d.rxWndRing.numElements := mod_lt _ hpos
    refine .placed (d.earlierIndex idx) hlt (by simp) (by simp) (by simpa using hlt) (hempty _ ?_)
    rw [slotBeforeSyn,if_neg hany,if_pos hearly]
  · obtain rfl := freeRxPkb_eq_some h
    exact .freed rfl rfl
  · obtain ⟨a,rfl⟩ := acceptBeforeSyn_eq_some h
    refine .placed (d.rxWndRing.wrapIndex (d.rxWndRing.producerIndex+d.seqDiffBeforeSyn idx))
      (mod_lt _ hpos) (by simp) (by simp) (by simpa using hpi) (hempty _ ?_)
    rw [slotBeforeSyn,if_neg hany,if_neg hearly,if_neg hfar]

theorem lookAt_moves (hpi : d.rxWndRing.producerIndex<d.rxWndRing.numElements)
    (h : d.lookAt idx=some d') : Moves d d' idx := by
  rw [lookAt] at h
  split_ifs at h with hsyn
  · rcases dataAfterSyn_eq_some h with ⟨a,rfl⟩ | ⟨-,hempty,a,rfl⟩
    · exact .freed rfl rfl
    · exact .placed _ (mod_lt _ (zero_lt_of_lt hpi)) rfl rfl hpi fun _ => hempty
  · exact dataBeforeSyn_moves (by simpa using hsyn) hpi h

def held (d : Socket) : List Nat := d.rxWndRing.buf.reduceOption

theorem held_set {pos : Nat} (hpos : pos<d.rxWndRing.numElements) (x : Option Nat) :
    ((d.rxWndRing.buf.set pos x).reduceOption++(d.rxWndRing.getElementAt pos).toList).Perm (d.held++x.toList) := by
  apply reduceOption_set_perm
  rw [getElementAt,getD_eq_getElem?_getD,List.getElem?_eq_getElem hpos]
  rfl

theorem nextIdx_mem_held (h : d.nextIdx=some idx) : idx ∈ d.held := mem_reduceOption_of_getD h

/-- All indices: not yet looked at from position `next` of `rx_ring` on, free, held, or lost. -/
structure Tracked (params : ShmParams) (d : Socket) (next : Nat) (unseen free lost : List Nat) : Prop where
  ring : d.rxRing.Holds next unseen free
  ring_size : d.rxRing.numElements=params.numRxRingElements
  wnd_size : d.rxWndRing.numElements=params.numRxPacketBuffers+1
  wnd_index : d.rxWndRing.producerIndex<d.rxWndRing.numElements
  located : (unseen++free++d.held++lost).Perm (List.range params.numRxPacketBuffers)
namespace Tracked
variable {params : ShmParams} {next v : Nat} {unseen free lost : List Nat}
section
variable (h : d.Tracked params next unseen free lost)
include h
theorem congr (hring : d'.rxRing=d.rxRing)
    (hwnd : d'.rxWndRing=d.rxWndRing) : d'.Tracked params next unseen free lost where
  ring := hring ▸ h.ring
  ring_size := hring ▸ h.ring_size
  wnd_size := hwnd ▸ h.wnd_size
  wnd_index := hwnd ▸ h.wnd_index
  located := by
    rw [held,hwnd]
    exact h.located

theorem length_eq : unseen.length+free.length+d.held.length+lost.length=params.numRxPacketBuffers := by
  have hlen := h.located.length_eq
  simpa only [length_append,length_range] using hlen

theorem nodup : (unseen++free++d.held++lost).Nodup := h.located.nodup_iff.mpr nodup_range
end

theorem coreDeliver (h : d.Tracked params next unseen (v::free) lost) (p : DataPacket) : Tracked params
      { d with
        rxPacketBuffers := Function.update d.rxPacketBuffers v p
        rxRing := d.rxRing.consumerAdvance 1 } next (unseen++[v]) free lost where
  __ := h
  ring := h.ring.consumerAdvance
  located := by
    have hlocated := h.located
    rwa [← singleton_append,← append_assoc] at hlocated

theorem moves (h : d.Tracked params next (idx::unseen) free lost) (hmoves : d.Moves d' idx) :
    ∃ free' lost', d'.Tracked params (d.rxRing.wrapIndex (next+1)) unseen free' lost' ∧
      (d.FallsOnEmptySlot idx → lost'=lost) := by
  have hlen := h.length_eq
  have hring := params.buffers_lt_ring
  cases hmoves with
  | freed hrx hwnd =>
    have hroom : unseen.length+free.length+1<d.rxRing.numElements := by
      rw [h.ring_size]
      rw [length_cons] at hlen
      omega
    refine ⟨free++[idx],lost,⟨?_,?_,?_,?_,?_⟩,fun _ => rfl⟩
    · rw [hrx]
      exact h.ring.look.produce hroom
    · rw [hrx,numElements_produce]
      exact h.ring_size
    · rw [hwnd]
      exact h.wnd_size
    · rw [hwnd]
      exact h.wnd_index
    · have hheld : d'.held=d.held := by rw [held,hwnd,held]
      refine List.Perm.trans ?_ h.located
      have hmiddle : ((unseen++free)++idx::(d.held++lost)).Perm _ := perm_middle
      rw [hheld]
      simp only [append_assoc,cons_append] at hmiddle ⊢
      exact hmiddle
  | placed pos hpos hrx hbuf hindex hempty =>
    have hsize : d'.rxWndRing.numElements=d.rxWndRing.numElements := by
      rw [numElements,hbuf,length_set]
      rfl
    refine ⟨free,(d.rxWndRing.getElementAt pos).toList++lost,⟨?_,?_,?_,?_,?_⟩,?_⟩
    · rw [hrx]
      exact h.ring.look
    · rw [hrx]
      exact h.ring_size
    · rw [hsize]
      exact h.wnd_size
    · rw [hsize]
      exact hindex
    · refine List.Perm.trans ?_ h.located
      have hheld : (d'.held++(d.rxWndRing.getElementAt pos).toList).Perm (d.held++[idx]) := by
        rw [held,hbuf]
        exact held_set hpos (some idx)
      have hmiddle : ((unseen++free++d.held)++idx::lost).Perm _ := perm_middle
      have hswap := (hheld.append_left (unseen++free)).append_right lost
      simp only [append_assoc,cons_append] at hmiddle hswap ⊢
      exact hswap.trans hmiddle
    · intro hfalls
      rw [hempty hfalls]
      rfl

theorem deplete (h : d.Tracked params next unseen free lost) (hidx : d.nextIdx=some idx) :
    (d.deplete idx).Tracked params next unseen (free++[idx]) lost := by
  have hheld : ((d.deplete idx).held++[idx]).Perm d.held := by
    have hset := held_set (d := d) h.wnd_index none
    rw [show d.rxWndRing.getElementAt d.rxWndRing.producerIndex=some idx from hidx] at hset
    exact hset.trans (by simp)
  have hlen := h.length_eq
  have hheldlen := hheld.length_eq
  have hbuffers := params.buffers_lt_ring
  rw [length_append,length_singleton] at hheldlen
  have hroom : unseen.length+free.length+1<d.rxRing.numElements := by
    rw [h.ring_size]
    omega
  have hproduce : (d.deplete idx).rxRing=d.rxRing.produce idx := by
    apply if_pos
    rw [h.ring.available_eq.2]
    omega
  refine ⟨?_,?_,?_,?_,?_⟩
  · rw [hproduce]
    exact h.ring.produce hroom
  · rw [hproduce,numElements_produce]
    exact h.ring_size
  · exact (numElements_setElementAt ..).trans h.wnd_size
  · exact mod_lt _ ((numElements_setElementAt ..).symm ▸ zero_lt_of_lt h.wnd_index)
  · refine List.Perm.trans ?_ h.located
    have hmiddle : ((d.deplete idx).held++[idx]).Perm ([idx]++(d.deplete idx).held) := perm_append_comm
    have hswap := ((hmiddle.symm.trans hheld).append_left (unseen++free)).append_right lost
    simpa [append_assoc] using hswap
end Tracked
end Socket
namespace State
variable (s : State)
def nextUnseen : Nat :=
  match s.pc with
  | .check _ i _ _ => s.sock.rxRing.wrapIndex (s.sock.rxConsumerShadow+i)
  | _ => s.sock.rxConsumerShadow

structure Tracked (params : ShmParams) (s : State) (unseen free lost : List Nat) : Prop where
  sock : s.sock.Tracked params s.nextUnseen unseen free lost
  check : ∀ call i n cci, s.pc=.check call i n cci →
    i≤n ∧ n ≤ i+unseen.length ∧ cci=s.sock.rxRing.wrapIndex (s.sock.rxConsumerShadow+n)

def FillsEmptySlot (d : Socket) : Pc → Prop
  | .check _ i n _ => i<n → d.FallsOnEmptySlot (d.rxRing.getElementAtWrapped (d.rxConsumerShadow+i))
  | _ => True

def ReadsPart (d : Socket) : Pc → Prop
  | .read c => ∀ idx ∈ d.nextIdx, c.len<d.unread idx
  | _ => True

instance (d : Socket) : ∀ pc, Decidable (FillsEmptySlot d pc)
  | .idle | .poll _ | .read _ | .copy _ _ _ _ => .isTrue trivial
  | .check _ i n _ => inferInstanceAs (Decidable (i<n → _))

instance (d : Socket) : ∀ pc, Decidable (ReadsPart d pc)
  | .idle | .poll _ | .check _ _ _ _ | .copy _ _ _ _ => .isTrue trivial
  | .read c => inferInstanceAs (Decidable (∀ idx ∈ d.nextIdx, c.len<d.unread idx))

def KeepsIndices : Action → Prop
  | .run _ => FillsEmptySlot s.sock s.pc
  | _ => True

def KeepsPayload : Action → Prop
  | .run _ => ReadsPart s.sock s.pc
  | _ => True

instance (s : State) : ∀ a, Decidable (s.KeepsIndices a)
  | .arrive _ | .recv _ _ | .timeout => .isTrue trivial
  | .run _ => inferInstanceAs (Decidable (FillsEmptySlot _ _))

instance (s : State) : ∀ a, Decidable (s.KeepsPayload a)
  | .arrive _ | .recv _ _ | .timeout => .isTrue trivial
  | .run _ => inferInstanceAs (Decidable (ReadsPart _ _))

def free : List Nat :=
  cyclicSegment s.sock.rxRing.buf s.sock.rxRing.consumerIndex s.sock.rxRing.consumerAvailable

def unseen : List Nat :=
  cyclicSegment s.sock.rxRing.buf s.nextUnseen (s.sock.rxRing.wrapIndex
      (s.sock.rxRing.consumerIndex+(s.sock.rxRing.numElements-s.nextUnseen)))

def Partitioned (params : ShmParams) : Prop :=
  (s.unseen++s.free++s.sock.held).Perm (List.range params.numRxPacketBuffers)

def CopiesHeld : Prop := ∀ c idx off sz, s.pc=.copy c idx off sz → idx ∈ s.sock.held
variable {params : ShmParams} {s s' : State} {unseen free lost : List Nat}
theorem nextUnseen_of_not_check (h : ∀ call i n cci, s.pc≠.check call i n cci) :
    s.nextUnseen=s.sock.rxConsumerShadow := by
  rw [nextUnseen]
  split
  · exact absurd (by assumption) (h _ _ _ _)
  · rfl

theorem MovedOn.not_check (h : s.MovedOn s') (call : Option RecvCall) (i n cci : Nat) : s'.pc≠.check call i n cci := by
  rcases h.pc_cases with hpc | ⟨call,hpc⟩ | ⟨⟨c,hpc⟩,-⟩
  all_goals simp [hpc]

theorem Tracked.movedOn (h : s.sock.Tracked params s.sock.rxConsumerShadow unseen free lost)
    (hmoved : s.MovedOn s') : s'.Tracked params unseen free lost := by
  obtain ⟨a,hsock⟩ := hmoved.sock_eq
  refine ⟨?_,fun call i n cci hpc => absurd hpc (hmoved.not_check call i n cci)⟩
  rw [nextUnseen_of_not_check hmoved.not_check,hsock]
  exact h.congr rfl rfl
section
variable (h : s.Tracked params unseen free lost)
include h
theorem Tracked.coreDeliver (p : DataPacket) : s.coreDeliver p=s ∨ ∃ v rest, free=v::rest ∧
        (s.coreDeliver p).Tracked params (unseen++[v]) rest lost ∧
        s.sock.rxRing.consumerAvailable≠0 ∧
        s.sock.rxRing.getElementAt s.sock.rxRing.consumerIndex=v ∧
        s.coreDeliver p={ s with
          sock := { s.sock with
            rxPacketBuffers := Function.update s.sock.rxPacketBuffers v p
            rxRing := s.sock.rxRing.consumerAdvance 1 } } := by
  rw [State.coreDeliver]
  split_ifs with havail
  · cases free with
    | nil => exact absurd h.sock.ring.available_eq.1 havail
    | cons v rest =>
      have hv := h.sock.ring.getElementAt_consumerIndex
      rw [hv]
      refine .inr ⟨v,rest,rfl,⟨h.sock.coreDeliver p,fun call i n cci hpc => ?_⟩,havail,rfl,rfl⟩
      obtain ⟨hi,hn,hcci⟩ := h.check call i n cci hpc
      exact ⟨hi,by rw [length_append]; omega,hcci⟩
  · exact .inl rfl
variable {call : Option RecvCall}
theorem Tracked.startCheck (hpc : s.pc=.poll call) : Tracked params
      { s with
        pc := .check call 0 (s.sock.numArrivals s.sock.rxRing.consumerIndex)
          s.sock.rxRing.consumerIndex } unseen free lost := by
  have hsock := h.sock
  rw [nextUnseen_of_not_check (by simp [hpc])] at hsock
  have hlt := hsock.ring.shadow_lt
  have hlen := hsock.ring.length_lt
  have harrivals : s.sock.numArrivals s.sock.rxRing.consumerIndex=unseen.length := by
    rw [Socket.numArrivals,hsock.ring.consumerIndex_eq]
    rcases add_mod_cases hlt (by omega : unseen.length < s.sock.rxRing.numElements) with
      ⟨hadd,heq⟩ | ⟨hadd,heq⟩
    · rw [heq,if_pos (by omega)]
      omega
    · rw [heq,if_neg (by omega)]
      omega
  refine ⟨?_,fun call i n cci hcheck => ?_⟩
  · show s.sock.Tracked params (s.sock.rxRing.wrapIndex (s.sock.rxConsumerShadow+0)) _ _ _
    rw [wrapIndex,Nat.add_zero,mod_eq_of_lt hlt]
    exact hsock
  · cases hcheck
    rw [harrivals]
    exact ⟨Nat.zero_le _,by omega,hsock.ring.consumerIndex_eq⟩

theorem Tracked.look {i n cci : Nat} {d : Socket} (hpc : s.pc=.check call i n cci) (hlt : i<n)
    (hlook : s.sock.lookAt (s.sock.rxRing.getElementAtWrapped (s.sock.rxConsumerShadow+i)) = some d) :
    ∃ unseen' free' lost', unseen=s.sock.rxRing.getElementAtWrapped (s.sock.rxConsumerShadow+i)::unseen' ∧
      Tracked params { s with sock := d, pc := .check call (i+1) n cci } unseen' free' lost' ∧ (s.sock.FallsOnEmptySlot
            (s.sock.rxRing.getElementAtWrapped (s.sock.rxConsumerShadow+i)) → lost'=lost) := by
  obtain ⟨hin,hn,hcci⟩ := h.check call i n cci hpc
  have hsock := h.sock
  have hnext : s.nextUnseen=s.sock.rxRing.wrapIndex (s.sock.rxConsumerShadow+i) := by rw [nextUnseen,hpc]
  cases unseen with
  | nil => exact absurd hlt (Nat.not_lt.mpr hn)
  | cons idx unseen =>
    have hidx : s.sock.rxRing.getElementAtWrapped (s.sock.rxConsumerShadow+i)=idx := by
      rw [getElementAtWrapped,← hnext]
      exact hsock.ring.getElementAt_shadow
    rw [hidx] at hlook ⊢
    have hmoves := Socket.lookAt_moves hsock.wnd_index hlook
    obtain ⟨-,hshadow,-⟩ := Socket.lookAt_frame hlook
    obtain ⟨free',lost',htracked,hlost⟩ := hsock.moves hmoves
    have hsize : d.rxRing.numElements=s.sock.rxRing.numElements := htracked.ring_size.trans hsock.ring_size.symm
    refine ⟨unseen,free',lost',rfl,⟨?_,fun call' i' n' cci' hcheck => ?_⟩,hlost⟩
    · show d.Tracked params (d.rxRing.wrapIndex (d.rxConsumerShadow+(i+1))) _ _ _
      rw [hnext,wrapIndex,wrapIndex,mod_add_mod] at htracked
      rw [wrapIndex,hsize,hshadow,← Nat.add_assoc]
      exact htracked
    · cases hcheck
      rw [length_cons] at hn
      refine ⟨by omega,by omega,?_⟩
      rw [wrapIndex,hsize,hshadow]
      exact hcci

theorem Tracked.endCheck {i n cci : Nat} (hpc : s.pc=.check call i n cci) (hge : n ≤ i)
    (hmoved : MovedOn { s with sock := { s.sock with rxConsumerShadow := cci } } s') :
    s'.Tracked params unseen free lost := by
  obtain ⟨hin,-,hcci⟩ := h.check call i n cci hpc
  obtain rfl : i=n := Nat.le_antisymm hin hge
  have hsock := h.sock
  rw [nextUnseen,hpc] at hsock
  refine Tracked.movedOn (s := { s with sock := { s.sock with rxConsumerShadow := cci } }) ?_ hmoved
  rw [hcci]
  exact hsock.congr rfl rfl

theorem Tracked.readPacket {c : RecvCall} {idx : Nat} (hpc : s.pc=.read c) (hidx : s.sock.nextIdx=some idx) :
    ∃ free', (s.readPacket c idx).Tracked params unseen free' lost := by
  have hsock := h.sock
  rw [nextUnseen_of_not_check (by simp [hpc])] at hsock
  rw [State.readPacket]
  split_ifs
  · exact ⟨free,hsock.congr rfl rfl,nofun⟩
  · exact ⟨free++[idx],hsock.deplete hidx,nofun⟩

theorem Tracked.copy {c : RecvCall} {idx off sz : Nat}
    (hpc : s.pc=.copy c idx off sz) (hsock' : ∃ a, s'.sock={ s.sock with acks := a })
    (hpc' : s'.pc=.idle ∨ ∃ c, s'.pc=.read c) : s'.Tracked params unseen free lost := by
  obtain ⟨a,hacks⟩ := hsock'
  have hnot (call i n cci) : s'.pc≠.check call i n cci := by rcases hpc' with hpc' | ⟨c,hpc'⟩ <;> simp [hpc']
  have hsock := h.sock
  rw [nextUnseen_of_not_check (by simp [hpc])] at hsock
  refine ⟨?_,fun _ _ _ _ hcheck => absurd hcheck (hnot _ _ _ _)⟩
  rw [nextUnseen_of_not_check hnot,hacks]
  exact hsock.congr rfl rfl

/-- Every step keeps track of all indices, and loses one only where it puts a packet on an occupied
slot. -/
theorem Tracked.step {a : Action} (hstep : Ndp.step s a=some s') :
    ∃ unseen' free' lost', s'.Tracked params unseen' free' lost' ∧ (s.KeepsIndices a → lost'=lost) := by
  cases step_effect hstep with
  | deliver p =>
    rcases h.coreDeliver p with hsame | ⟨v,rest,-,htracked,-⟩
    · rw [hsame]
      exact ⟨unseen,free,lost,h,fun _ => rfl⟩
    · exact ⟨unseen++[v],rest,lost,htracked,fun _ => rfl⟩
  | moveOn hcheck hcopy hmoved =>
    have hsock := h.sock
    rw [nextUnseen_of_not_check hcheck] at hsock
    exact ⟨unseen,free,lost,.movedOn hsock hmoved,fun _ => rfl⟩
  | startCheck hpc => exact ⟨unseen,free,lost,h.startCheck hpc,fun _ => rfl⟩
  | look hpc hlt hlook =>
    obtain ⟨unseen',free',lost',-,htracked,hlost⟩ := h.look hpc hlt hlook
    refine ⟨unseen',free',lost',htracked,fun hfills => hlost ?_⟩
    rw [KeepsIndices,hpc] at hfills
    exact hfills hlt
  | endCheck hpc hge hmoved => exact ⟨unseen,free,lost,h.endCheck hpc hge hmoved,fun _ => rfl⟩
  | read hpc hidx =>
    obtain ⟨free',htracked⟩ := h.readPacket hpc hidx
    exact ⟨unseen,free',lost,htracked,fun _ => rfl⟩
  | copy hpc hsock' hout hpc' => exact ⟨unseen,free,lost,h.copy hpc hsock' hpc',fun _ => rfl⟩
end

theorem rxRing_init (params : ShmParams) : (init params).sock.rxRing=filled (List.range params.numRxPacketBuffers)
      (List.replicate (params.numRxRingElements-params.numRxPacketBuffers) 0) := by
  have hreset (n : Nat) (hn : n<params.numRxRingElements) :
      (List.range n).foldl resetRxPacketBuffer (Ring.init params.numRxRingElements 0) =
        filled (List.range n) (List.replicate (params.numRxRingElements-n) 0) := by
    induction n with
    | zero => rfl
    | succ n ih =>
      have hrep : List.replicate (params.numRxRingElements-n) 0 =
          0::List.replicate (params.numRxRingElements-(n+1)) 0 := by
        rw [← replicate_succ,sub_add_eq,Nat.sub_add_cancel (by omega)]
      rw [range_succ,foldl_append,ih (by omega),foldl_cons,foldl_nil,
        resetRxPacketBuffer,producerAvailable_filled,length_replicate,
        if_pos (by omega),hrep,produce_filled _ (by simp; omega)]
  exact hreset _ params.buffers_lt_ring

theorem tracked_init (params : ShmParams) :
    (init params).Tracked params [] (List.range params.numRxPacketBuffers) [] := by
  have hlt := params.buffers_lt_ring
  have hholds : (init params).sock.rxRing.Holds 0 [] (List.range params.numRxPacketBuffers) := by
    rw [rxRing_init]
    exact holds_filled (by simp; omega)
  have hsize : (init params).sock.rxRing.numElements=params.numRxRingElements := by
    rw [rxRing_init,numElements,filled,length_append,length_range,length_replicate]
    omega
  refine ⟨⟨hholds,hsize,length_replicate,?_,?_⟩,?_⟩
  · exact Nat.lt_of_lt_of_eq (succ_pos _) length_replicate.symm
  · have hheld : (init params).sock.held=[] := reduceOption_replicate_none
    rw [hheld]
    simp
  · intro call i n cci hpc
    cases hpc

theorem Tracked.unseen_eq (h : s.Tracked params unseen free lost) : s.unseen=unseen := by
  have hring := h.sock.ring
  have hlen := hring.length_lt
  have hlt := hring.shadow_lt
  have hcount : s.sock.rxRing.wrapIndex (s.sock.rxRing.consumerIndex+(s.sock.rxRing.numElements-s.nextUnseen)) =
      unseen.length := by
    have hsum : s.nextUnseen+unseen.length+(s.sock.rxRing.numElements-s.nextUnseen) =
        unseen.length+s.sock.rxRing.numElements := by omega
    rw [wrapIndex,hring.consumerIndex_eq,mod_add_mod,hsum,add_mod_right,mod_eq_of_lt (by omega)]
  rw [State.unseen,hcount]
  exact hring.unseen_eq

theorem Tracked.partitioned (h : s.Tracked params unseen free []) : s.Partitioned params := by
  have hlocated := h.sock.located
  rwa [append_nil,← h.unseen_eq,← h.sock.ring.free_eq] at hlocated

theorem CopiesHeld.step {a : Action} (hheld : s.CopiesHeld) (hcond : s.KeepsPayload a)
    (hstep : Ndp.step s a=some s') : s'.CopiesHeld := by
  intro c idx off sz hcopy
  cases step_effect hstep with
  | deliver p =>
    rw [State.coreDeliver] at hcopy ⊢
    split_ifs at hcopy ⊢ with havail
    · exact hheld c idx off sz hcopy
    · exact hheld c idx off sz hcopy
  | moveOn _ _ hmoved | endCheck _ _ hmoved =>
    rcases hmoved.pc_cases with hpc | ⟨_,hpc⟩ | ⟨⟨_,hpc⟩,-⟩
    all_goals
      rw [hpc] at hcopy
      cases hcopy
  | startCheck _ | look _ _ _ => cases hcopy
  | @read timedOut c' idx' hpc hidx =>
    rw [KeepsPayload,hpc] at hcond
    rw [State.readPacket,if_pos (hcond idx' hidx)] at hcopy ⊢
    obtain ⟨-,rfl,-,-⟩ := Pc.copy.inj hcopy
    exact Socket.nextIdx_mem_held hidx
  | copy _ _ _ hpc' =>
    rcases hpc' with hpc' | ⟨_,hpc'⟩
    all_goals
      rw [hpc'] at hcopy
      cases hcopy

/-- In every interleaving in which no packet before the SYN falls on an occupied slot, every index is
in one place; if moreover no buffer is read to its end, the library copies only from what it holds. -/
theorem buffers_owned (params : ShmParams) (as : List Action) (s : State) (hrun : exec Ndp.step (init params) as=some s)
    (hcond : EachStep Ndp.step KeepsIndices (init params) as) :
    s.Partitioned params ∧ (EachStep Ndp.step KeepsPayload (init params) as → s.CopiesHeld) := by
  have hkeep (s : State) (a : Action) (t : State) (hs : ∃ unseen free, s.Tracked params unseen free [])
      (hcond : s.KeepsIndices a) (hstep : Ndp.step s a=some t) : ∃ unseen free, t.Tracked params unseen free [] := by
    obtain ⟨unseen,free,htracked⟩ := hs
    obtain ⟨unseen',free',lost',htracked',hlost⟩ := htracked.step hstep
    rw [hlost hcond] at htracked'
    exact ⟨unseen',free',htracked'⟩
  constructor
  · obtain ⟨unseen,free,htracked⟩ := exec_invariant hkeep ⟨_,_,tracked_init params⟩ hrun hcond
    exact htracked.partitioned
  · exact exec_invariant (fun _ _ _ hheld hcond hstep => CopiesHeld.step hheld hcond hstep) nofun hrun

section Runs
def ready (params : ShmParams) : State :=
  ⟨{ Socket.init params with
      rxRing := filled (List.range params.numRxPacketBuffers)
        (List.replicate (params.numRxRingElements-params.numRxPacketBuffers) 0) },.idle,[]⟩

theorem init_eq_ready (params : ShmParams) : init params=ready params := by
  rw [ready,← rxRing_init]
  rfl

def sampleParams : ShmParams := ⟨200,256,by decide,by decide,by decide⟩
private def synPacket : DataPacket := ⟨5,true,[0x61,0x62,0x63]⟩
private def laterPacket : DataPacket := ⟨6,false,[0x64,0x65]⟩

private def partialRead : List Action :=
  [.arrive synPacket,.timeout,.run false,.run false,.run false,.recv 2 false,.run false]

private def fullRead : List Action :=
  [.arrive synPacket,.timeout,.run false,.run false,.run false,.recv 3 false,.run false]

/-- A buffer that is read in part, and one that is read to its end. -/
theorem reads_owned :
    (∃ s, exec Ndp.step (init sampleParams) partialRead = some s ∧ s.Partitioned sampleParams ∧ s.CopiesHeld) ∧
      ∃ s, exec Ndp.step (init sampleParams) fullRead = some s ∧ s.Partitioned sampleParams := by
  have hrun : (exec Ndp.step (init sampleParams) partialRead).isSome ∧
      (exec Ndp.step (init sampleParams) fullRead).isSome ∧
      EachStep Ndp.step KeepsIndices (init sampleParams) partialRead ∧
      EachStep Ndp.step KeepsPayload (init sampleParams) partialRead ∧
      EachStep Ndp.step KeepsIndices (init sampleParams) fullRead := by
    rw [init_eq_ready]
    decide +kernel
  obtain ⟨s,hs⟩ := Option.isSome_iff_exists.mp hrun.1
  obtain ⟨t,ht⟩ := Option.isSome_iff_exists.mp hrun.2.1
  have hpart := buffers_owned sampleParams partialRead s hs hrun.2.2.1
  exact ⟨⟨s,hs,hpart.1,hpart.2 hrun.2.2.2.1⟩,t,ht,(buffers_owned sampleParams fullRead t ht hrun.2.2.2.2).1⟩

private def duplicateBeforeSyn : List Action :=
  [.arrive laterPacket,.arrive laterPacket,.timeout,.run false,.run false,.run false]

/-- The first run loses an index; at the end of the second one, the library is about to copy from a
buffer that it has already given back. -/
theorem duplicate_and_fullRead_not_owned : (∃ s, exec Ndp.step (init sampleParams) duplicateBeforeSyn=some s ∧
      ¬(s.unseen++s.free++s.sock.held).Perm (List.range 200)) ∧
    ∃ s, exec Ndp.step (init sampleParams) fullRead=some s ∧
      ∃ c idx off sz, s.pc=.copy c idx off sz ∧ idx ∉ s.sock.held ∧ idx ∈ s.free := by
  have hlost : (exec Ndp.step (init sampleParams) duplicateBeforeSyn).map
      (fun s => (s.unseen++s.free++s.sock.held).length)=some 199 := by
    rw [init_eq_ready]
    decide +kernel
  have hcopy : (exec Ndp.step (init sampleParams) fullRead).map (fun s => (s.pc,s.sock.held,s.free.getLast?)) =
      some (.copy ⟨false,3,[],0,1⟩ 0 0 3,[],some 0) := by
    rw [init_eq_ready]
    decide +kernel
  obtain ⟨s,hs,hlen⟩ := Option.map_eq_some_iff.mp hlost
  obtain ⟨t,ht,hpc⟩ := Option.map_eq_some_iff.mp hcopy
  simp only [Prod.mk.injEq] at hpc
  refine ⟨⟨s,hs,fun hperm => ?_⟩,t,ht,_,_,_,_,hpc.1,?_,mem_of_getLast? hpc.2.2⟩
  · rw [hperm.length_eq,length_range] at hlen
    exact absurd hlen (by decide)
  · rw [hpc.2.1]
    exact not_mem_nil
end Runs
end State
end P4Benchmarks.Ndp
