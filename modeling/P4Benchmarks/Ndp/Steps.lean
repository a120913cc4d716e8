import P4Benchmarks.Ndp.Receiver
/-! # What the steps of the receiving side do -/
namespace P4Benchmarks.Ndp
open Lib Option
namespace Socket
variable {d d' : Socket} {idx : Nat}
theorem addToPending_eq_some (h : d.addToPending idx=some d') : ∃ a, d' = { d with acks := a } := by
  rw [addToPending] at h
  split_ifs at h
  exact ⟨_,(some.inj h).symm⟩

theorem freeRxPkb_eq_some (h : d.freeRxPkb idx=some d') : d'={ d with rxRing := d.rxRing.produce idx } := by
  rw [freeRxPkb] at h
  split_ifs at h
  exact (some.inj h).symm

theorem sendAck_freeRxPkb_eq_some {seq edge : Seq} (h : (d.sendAck seq edge).freeRxPkb idx=some d') :
    ∃ a, d'={ d with rxRing := d.rxRing.produce idx, acks := a } := by
  rw [freeRxPkb_eq_some h]
  exact ⟨_,rfl⟩

theorem dataAfterSyn_eq_some (h : d.dataAfterSyn idx=some d') :
    (∃ a, d'={ d with rxRing := d.rxRing.produce idx, acks := a }) ∨
      d.seqDiffAfterSyn idx<ndpInitialRxWindowSize ∧ d.rxWndRing.getElementAtWrapped
          (d.rxWndRing.producerIndex+d.seqDiffAfterSyn idx)=none ∧
        ∃ a, d'={ d with
          rxWndRing := d.rxWndRing.setElementAtWrapped (d.rxWndRing.producerIndex+d.seqDiffAfterSyn idx) (some idx)
          acks := a } := by
  rw [dataAfterSyn] at h
  split_ifs at h with hold hfar hempty
  · exact .inl (sendAck_freeRxPkb_eq_some h)
  · exact .inl ⟨d.acks,freeRxPkb_eq_some h⟩
  · exact .inr ⟨by omega,isNone_iff_eq_none.mp hempty,addToPending_eq_some h⟩
  · exact .inl (sendAck_freeRxPkb_eq_some h)

theorem acceptBeforeSyn_eq_some (h : d.acceptBeforeSyn idx=some d') : ∃ a, d'=noteSyn { d with acks := a } idx := by
  rw [acceptBeforeSyn,map_eq_some_iff] at h
  obtain ⟨e,hadd,rfl⟩ := h
  obtain ⟨a,rfl⟩ := addToPending_eq_some hadd
  exact ⟨a,rfl⟩

@[simp] theorem noteSyn_frame : (d.noteSyn idx).rxRing=d.rxRing ∧
    (d.noteSyn idx).rxWndRing=d.rxWndRing ∧ (d.noteSyn idx).rxConsumerShadow=d.rxConsumerShadow ∧
    (d.noteSyn idx).rxPacketBuffers=d.rxPacketBuffers ∧ (d.noteSyn idx).recvPktOff=d.recvPktOff := by
  rw [noteSyn]
  split_ifs <;> exact ⟨rfl,rfl,rfl,rfl,rfl⟩

theorem lookAt_frame (h : d.lookAt idx=some d') :
    d'.rxPacketBuffers=d.rxPacketBuffers ∧ d'.rxConsumerShadow=d.rxConsumerShadow ∧ d'.recvPktOff=d.recvPktOff := by
  rw [lookAt] at h
  split_ifs at h with hsyn
  · rcases dataAfterSyn_eq_some h with ⟨a,rfl⟩ | ⟨-,-,a,rfl⟩
    · exact ⟨rfl,rfl,rfl⟩
    · exact ⟨rfl,rfl,rfl⟩
  · rw [dataBeforeSyn] at h
    split_ifs at h
    · obtain ⟨a,rfl⟩ := acceptBeforeSyn_eq_some h
      simp
    · obtain ⟨a,rfl⟩ := acceptBeforeSyn_eq_some h
      simp
    · obtain rfl := freeRxPkb_eq_some h
      exact ⟨rfl,rfl,rfl⟩
    · obtain ⟨a,rfl⟩ := acceptBeforeSyn_eq_some h
      simp
end Socket

def Pc.call : Pc → Option RecvCall
  | .idle => none
  | .poll call => call
  | .check call _ _ _ => call
  | .read call => some call
  | .copy call _ _ _ => some call

@[local simp] def callResult (call : Option RecvCall) : List Byte := (call.map RecvCall.result).getD []
namespace State
variable {s : State} {call : Option RecvCall} {c : RecvCall} {timedOut : Bool} {n : Nat}

def output (s : State) : List Byte := s.returned++callResult s.pc.call

/-- The library has gone on to a place outside of its loop over the arrivals; only ACKs have been
sent. -/
structure MovedOn (s s' : State) : Prop where
  sock_eq : ∃ a, s'.sock={ s.sock with acks := a }
  output_eq : s'.output=s.output
  pc_cases : s'.pc=.idle ∨ (∃ call, s'.pc=.poll call) ∨ (∃ c, s'.pc=.read c) ∧ s.sock.synReceived

theorem output_unlockAndReturn (s : State) (c : RecvCall) : (s.unlockAndReturn c).output=s.returned++c.result := by
  simp [output,unlockAndReturn,Pc.call]

theorem movedOn_afterCheck (hcall : s.pc.call=call) (hn : n≠0 → s.sock.synReceived) :
    MovedOn s (s.afterCheck timedOut call n) := by
  cases call with
  | none =>
    refine ⟨⟨_,rfl⟩,?_,.inl rfl⟩
    rw [output,output,hcall]
    rfl
  | some c =>
    have hout : s.output=s.returned++c.result := by
      rw [output,hcall]
      rfl
    rw [afterCheck]
    split_ifs with hzero hblock htime hnone hblock
    · exact ⟨⟨_,rfl⟩,(output_unlockAndReturn ..).trans hout.symm,.inl rfl⟩
    · exact ⟨⟨_,rfl⟩,hout.symm,.inr (.inl ⟨_,rfl⟩)⟩
    · exact ⟨⟨_,rfl⟩,hout.symm,.inr (.inl ⟨_,rfl⟩)⟩
    · exact ⟨⟨_,rfl⟩,(output_unlockAndReturn ..).trans hout.symm,.inl rfl⟩
    · exact ⟨⟨_,rfl⟩,hout.symm,.inr (.inl ⟨_,rfl⟩)⟩
    · exact ⟨⟨_,rfl⟩,hout.symm,.inr (.inr ⟨⟨_,rfl⟩,hn hzero⟩)⟩

theorem finishRecv_spec (s : State) (c : RecvCall) :
    (∃ a, (s.finishRecv c).sock={ s.sock with acks := a }) ∧ (s.finishRecv c).pc=.idle ∧
      (s.finishRecv c).returned=s.returned++c.result := by
  rw [finishRecv]
  split_ifs
  · exact ⟨⟨_,rfl⟩,rfl,rfl⟩
  · exact ⟨⟨_,rfl⟩,rfl,rfl⟩
  · exact ⟨⟨_,rfl⟩,rfl,rfl⟩

theorem movedOn_ndpRecv {len : Nat} {dontBlock : Bool} (hidle : s.pc=.idle) : MovedOn s (s.ndpRecv len dontBlock) := by
  have hout : s.output=s.returned := by simp [output,hidle,Pc.call]
  have hempty : s.returned++[]=s.output := by rw [hout,List.append_nil]
  rw [ndpRecv]
  split_ifs with hlen hnone hsyn
  · exact ⟨⟨_,rfl⟩,rfl,.inl hidle⟩
  · exact ⟨⟨_,rfl⟩,hempty,.inr (.inl ⟨_,rfl⟩)⟩
  · exact ⟨⟨_,rfl⟩,hempty,.inr (.inr ⟨⟨_,rfl⟩,hsyn⟩)⟩
  · exact ⟨⟨_,rfl⟩,(output_unlockAndReturn ..).trans hempty,.inl rfl⟩
  · exact ⟨⟨_,rfl⟩,hempty,.inr (.inl ⟨_,rfl⟩)⟩

theorem movedOn_finishRecv (hcall : s.pc.call=some c) : MovedOn s (s.finishRecv c) := by
  obtain ⟨hsock,hpc,hret⟩ := finishRecv_spec s c
  refine ⟨hsock,?_,.inl hpc⟩
  rw [output,hpc,hret,output,hcall]
  exact List.append_nil _
end State

inductive Effect (s : State) : Action → State → Prop
  | deliver (p : DataPacket) : Effect s (.arrive p) (s.coreDeliver p)
  | moveOn {a : Action} {s' : State} (hcheck : ∀ call i n cci, s.pc≠.check call i n cci)
    (hcopy : ∀ call idx off sz, s.pc≠.copy call idx off sz) (h : s.MovedOn s') : Effect s a s'
  | startCheck {timedOut : Bool} {call : Option RecvCall} (hpc : s.pc=.poll call) :
    Effect s (.run timedOut)
      { s with
        pc := .check call 0 (s.sock.numArrivals s.sock.rxRing.consumerIndex) s.sock.rxRing.consumerIndex }
  | look {timedOut : Bool} {call : Option RecvCall} {i n cci : Nat} {d : Socket}
    (hpc : s.pc=.check call i n cci) (hlt : i<n)
    (h : s.sock.lookAt (s.sock.rxRing.getElementAtWrapped (s.sock.rxConsumerShadow+i))=some d) :
    Effect s (.run timedOut) { s with sock := d, pc := .check call (i+1) n cci }
  | endCheck {timedOut : Bool} {call : Option RecvCall} {i n cci : Nat} {s' : State}
    (hpc : s.pc=.check call i n cci) (hge : n ≤ i)
    (h : State.MovedOn { s with sock := { s.sock with rxConsumerShadow := cci } } s') :
    Effect s (.run timedOut) s'
  | read {timedOut : Bool} {c : RecvCall} {idx : Nat} (hpc : s.pc=.read c)
    (hidx : s.sock.nextIdx=some idx) : Effect s (.run timedOut) (s.readPacket c idx)
  | copy {timedOut : Bool} {c : RecvCall} {idx off sz : Nat} {s' : State}
    (hpc : s.pc=.copy c idx off sz) (hsock : ∃ a, s'.sock={ s.sock with acks := a })
    (hout : s'.output=s.output++s.sock.bytesAt idx off sz)
    (hpc' : s'.pc=.idle ∨ ∃ c, s'.pc=.read c) : Effect s (.run timedOut) s'

open State in
theorem libraryStep_effect {s s' : State} {timedOut : Bool}
    (h : s.libraryStep timedOut=some s') : Effect s (.run timedOut) s' := by
  rw [libraryStep] at h
  split at h
  case h_1 => cases h
  case h_2 call hpc =>
    cases h
    rw [startCheck]
    split_ifs with hnone
    · refine .moveOn (by simp [hpc]) (by simp [hpc]) (movedOn_afterCheck (by rw [hpc]; rfl) ?_)
      intro hne
      exact absurd rfl hne
    · exact .startCheck hpc
  case h_3 call i n cci hpc =>
    split_ifs at h with hlt
    · obtain ⟨d,hlook,rfl⟩ := map_eq_some_iff.mp h
      exact .look hpc hlt hlook
    · cases h
      refine .endCheck hpc (Nat.le_of_not_lt hlt) (movedOn_afterCheck (by rw [hpc]; rfl) ?_)
      intro hne
      by_contra hsyn
      exact hne (if_neg hsyn)
  case h_4 c hpc =>
    split at h
    case h_1 =>
      cases h
      exact .moveOn (by simp [hpc]) (by simp [hpc]) (movedOn_finishRecv (by rw [hpc]; rfl))
    case h_2 idx hidx =>
      cases h
      exact .read hpc hidx
  case h_5 c idx off sz hpc =>
    have hout : s.output=s.returned++c.result := by
      rw [output,hpc]
      rfl
    cases h
    rw [afterCopy]
    split_ifs
    · obtain ⟨hsock,hidle,hret⟩ := finishRecv_spec s (c.copied (s.sock.bytesAt idx off sz) sz)
      refine .copy hpc hsock ?_ (.inl hidle)
      rw [output,hidle,hret,hout]
      simp [Pc.call,RecvCall.copied]
    · refine .copy hpc ⟨_,rfl⟩ ?_ (.inr ⟨_,rfl⟩)
      rw [hout,List.append_assoc]
      rfl

theorem step_effect {s s' : State} {a : Action} (h : step s a=some s') : Effect s a s' := by
  cases a with
  | arrive p =>
    cases h
    exact .deliver p
  | recv len dontBlock =>
    rw [step] at h
    split_ifs at h with hidle
    cases h
    exact .moveOn (by simp [hidle]) (by simp [hidle]) (State.movedOn_ndpRecv hidle)
  | timeout =>
    rw [step] at h
    split_ifs at h with hidle
    cases h
    refine .moveOn (by simp [hidle]) (by simp [hidle]) ⟨⟨_,rfl⟩,?_,.inr (.inl ⟨_,rfl⟩)⟩
    rw [State.output,State.output,hidle]
    rfl
  | run timedOut => exact libraryStep_effect h
end P4Benchmarks.Ndp
