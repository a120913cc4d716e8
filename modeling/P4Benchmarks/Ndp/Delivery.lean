import P4Benchmarks.Ndp.Window
/-! # In-order delivery -/
namespace P4Benchmarks.Ndp
open Lib List Option State DataPacket Socket Function Sender
structure System where
  sender : Sender
  receiver : State

structure SendParams where
  sendIsn : Seq
  maxPayload : Nat
  numTxPacketBuffers : Seq

inductive Event where
  | send (src : List Byte) (onlySendFull dontBlock : Bool)
  | sendRun (remoteRwndEdge txFirstNotAck : Seq)
  | receive (a : Action)
deriving DecidableEq
namespace Sender
def ndpSend (x : Sender) (src : List Byte) (onlySendFull dontBlock : Bool) : Option Sender :=
  if x.call.isSome then none
  else if src=[] then some x
  else some { x with call := some ⟨src,onlySendFull,dontBlock⟩ }

def sendLoop (snd : SendParams) (remoteRwndEdge txFirstNotAck : Seq) (x : Sender) : Option Sender :=
  match x.call with
  | none => none
  | some call =>
    if x.txPkbInUse.isNone ∧ sendWaits x.txNextSeqNumber remoteRwndEdge txFirstNotAck snd.numTxPacketBuffers then
      if call.dontBlock then some { x with call := none } else some x
    else some (x.sendRound snd.maxPayload call)
end Sender

def Sender.sends (x : Sender) : Action → Bool
  | .arrive p => p ∈ x.txRing
  | _ => true
namespace System
def init (params : ShmParams) (snd : SendParams) : System := ⟨Sender.init snd.sendIsn,State.init params⟩

def step (snd : SendParams) (s : System) : Event → Option System
  | .send src onlySendFull dontBlock =>
    (s.sender.ndpSend src onlySendFull dontBlock).map fun x => { s with sender := x }
  | .sendRun remoteRwndEdge txFirstNotAck =>
    -- a receiver without the SYN has sent no ACK, so the edge is the one of connection setup
    if s.receiver.sock.synReceived ∨ remoteRwndEdge=initialEdge snd.sendIsn then
      (s.sender.sendLoop snd remoteRwndEdge txFirstNotAck).map fun x => { s with sender := x }
    else none
  | .receive a =>
    if s.sender.sends a then (Ndp.step s.receiver a).map fun r => { s with receiver := r } else none
end System

def State.SparesCopy (s : State) : Action → Prop
  | .arrive _ =>
    match s.pc with
    | .copy _ idx _ _ => s.sock.rxRing.consumerAvailable≠0 →
      s.sock.rxRing.getElementAt s.sock.rxRing.consumerIndex≠idx
    | _ => True
  | _ => True

def System.SparesCopy (s : System) : Event → Prop
  | .receive a => s.receiver.SparesCopy a
  | _ => True

instance State.SparesCopy.decidable (s : State) (a : Action) : Decidable (s.SparesCopy a) :=
  match a, hpc : s.pc with
  | .arrive _, .copy _ idx _ _ => decidable_of_iff
      (s.sock.rxRing.consumerAvailable≠0 →
        s.sock.rxRing.getElementAt s.sock.rxRing.consumerIndex≠idx) (by rw [SparesCopy,hpc])
  | .arrive _, .idle | .arrive _, .poll _ | .arrive _, .check .. | .arrive _, .read _ =>
    .isTrue (by simp [SparesCopy,hpc])
  | .recv _ _, _ | .timeout, _ | .run _, _ => .isTrue trivial

instance System.SparesCopy.decidable (s : System) : ∀ e : Event, Decidable (s.SparesCopy e)
  | .send .. | .sendRun .. => .isTrue trivial
  | .receive a => inferInstanceAs (Decidable (s.receiver.SparesCopy a))

def readSoFar (tx : List DataPacket) (n off : Nat) : List Byte :=
  ((tx.take n).map payload).flatten++((tx[n]?.map payload).getD []).take off

def State.pendingCopy (s : State) : List Byte :=
  match s.pc with
  | .copy _ idx off sz => s.sock.bytesAt idx off sz
  | _ => []
section ReadSoFar
variable {tx : List DataPacket} {n off : Nat} {p : DataPacket}
theorem readSoFar_succ (hget : tx[n]?=some p) : readSoFar tx (n+1) 0=((tx.take n).map payload).flatten++p.payload := by
  rw [readSoFar,take_zero,append_nil,take_add_one,hget]
  simp

theorem readSoFar_prefix_payloads (tx : List DataPacket) (n off : Nat) :
    readSoFar tx n off <+: (tx.map payload).flatten := by
  have hfirst (m : Nat) : ((tx.take m).map payload).flatten <+: (tx.map payload).flatten := by
    nth_rewrite 2 [← take_append_drop m tx]
    rw [map_append,flatten_append]
    exact prefix_append _ _
  cases hget : tx[n]? with
  | none =>
    rw [readSoFar,hget]
    simpa using hfirst n
  | some p =>
    have hpart : readSoFar tx n off <+: readSoFar tx (n+1) 0 := by
      rw [readSoFar_succ hget,readSoFar,hget]
      exact prefix_append_right_inj _ |>.mpr <| take_prefix ..
    refine hpart.trans ?_
    rw [readSoFar,take_zero,append_nil]
    exact hfirst (n+1)

theorem readSoFar_append (hoff : off=0 ∨ n<tx.length) (hn : n≤tx.length)
    (ps : List DataPacket) : readSoFar (tx++ps) n off=readSoFar tx n off := by
  rw [readSoFar,readSoFar,take_append_of_le_length hn]
  rcases hoff with rfl | hlt
  · simp
  · rw [List.getElem?_append_left hlt]

theorem readSoFar_part (hget : tx[n]?=some p) (len : Nat) :
    readSoFar tx n (off+len)=readSoFar tx n off++(p.payload.drop off).take len := by
  rw [readSoFar,readSoFar,hget,append_assoc]
  simp only [map_some,getD_some]
  rw [take_add]

theorem readSoFar_rest (hget : tx[n]?=some p) : readSoFar tx (n+1) 0 =
      readSoFar tx n off++(p.payload.drop off).take (p.payload.length-off) := by
  have hall : (p.payload.drop off).take (p.payload.length-off)=p.payload.drop off :=
    take_of_length_le (by rw [length_drop])
  rw [readSoFar_succ hget,readSoFar,hget,hall,append_assoc]
  simp [map_some,getD_some,take_append_drop]
end ReadSoFar
namespace State
variable {s s' : State}
def Reading (s : State) : Prop := ∃ c, s.pc=.read c ∨ ∃ idx off sz, s.pc=.copy c idx off sz

theorem pendingCopy_of_not_copy (h : ∀ call idx off sz, s.pc≠.copy call idx off sz) : s.pendingCopy=[] := by
  rw [pendingCopy]
  split
  · exact absurd (by assumption) (h _ _ _ _)
  · rfl

theorem MovedOn.pendingCopy_eq (h : s.MovedOn s') : s'.pendingCopy=[] := by
  refine pendingCopy_of_not_copy fun call idx off sz => ?_
  rcases h.pc_cases with hpc | ⟨call,hpc⟩ | ⟨⟨c,hpc⟩,-⟩
  all_goals simp [hpc]

theorem MovedOn.synReceived_of_reading (h : s.MovedOn s') (hreading : s'.Reading) : s'.sock.synReceived := by
  obtain ⟨a,hsock⟩ := h.sock_eq
  rw [hsock]
  rcases h.pc_cases with hpc | ⟨call,hpc⟩ | ⟨-,hsyn⟩
  · simp [Reading,hpc] at hreading
  · simp [Reading,hpc] at hreading
  · exact hsyn
end State

structure Receiving (params : ShmParams) (isn : Seq) (tx : List DataPacket) (s : State) (n : Nat)
    (unseen free lost : List Nat) : Prop where
  tracked : s.Tracked params unseen free lost
  unseen_mem : ∀ i ∈ unseen, s.sock.rxPacketBuffers i ∈ tx
  window : s.sock.Window isn tx n
  reading : s.Reading → s.sock.synReceived
  output_eq : s.output++s.pendingCopy=readSoFar tx n s.sock.recvPktOff
  off_lt : s.sock.recvPktOff=0 ∨ n<tx.length
namespace Receiving
variable {params : ShmParams} {isn : Seq} {tx : List DataPacket} {s s' : State} {n : Nat}
  {unseen free lost : List Nat}

theorem init (params : ShmParams) (isn : Seq) :
    Receiving params isn [] (State.init params) 0 [] (List.range params.numRxPacketBuffers) [] where
  tracked := tracked_init params
  unseen_mem := nofun
  window := by
    refine ⟨rfl,rfl,fun j hj => ?_⟩
    rw [slot,cyclicAt,getD_eq_getElem?_getD]
    show ((List.replicate (params.numRxPacketBuffers+1) none)[_]?).getD none=none
    rw [List.getElem?_replicate]
    split_ifs <;> rfl
  reading := by rintro ⟨c,hread | ⟨idx,off,sz,hread⟩⟩ <;> cases hread
  output_eq := rfl
  off_lt := .inl rfl
variable (h : Receiving params isn tx s n unseen free lost)
include h
theorem append (ps : List DataPacket) : Receiving params isn (tx++ps) s n unseen free lost where
  __ := h
  unseen_mem i hi := mem_append_left ps (h.unseen_mem i hi)
  window := h.window.append ps
  output_eq := by
    rw [readSoFar_append h.off_lt h.window.le_length]
    exact h.output_eq
  off_lt := by
    rw [length_append]
    exact h.off_lt.imp_right fun hlt => Nat.lt_add_right _ hlt

theorem congr (htracked : s'.Tracked params unseen free lost) (hbufs : s'.sock.rxPacketBuffers=s.sock.rxPacketBuffers)
    (hwindow : s.sock.SameWindow s'.sock) (hoff : s'.sock.recvPktOff=s.sock.recvPktOff)
    (hreading : s'.Reading → s'.sock.synReceived)
    (hout : s'.output++s'.pendingCopy=s.output++s.pendingCopy) :
    Receiving params isn tx s' n unseen free lost where
  tracked := htracked
  unseen_mem := by
    rw [hbufs]
    exact h.unseen_mem
  window := h.window.congr hwindow
  reading := hreading
  output_eq := by
    rw [hout,hoff]
    exact h.output_eq
  off_lt := by
    rw [hoff]
    exact h.off_lt

theorem movedOn (htracked : s'.Tracked params unseen free lost) (hmoved : s.MovedOn s')
    (hcopy : ∀ call idx off sz, s.pc≠.copy call idx off sz) : Receiving params isn tx s' n unseen free lost := by
  obtain ⟨a,hsock⟩ := hmoved.sock_eq
  refine h.congr htracked (by rw [hsock]) ?_ (by rw [hsock]) hmoved.synReceived_of_reading ?_
  · rw [hsock]
    exact s.sock.sameWindow_acks a
  · rw [hmoved.output_eq,hmoved.pendingCopy_eq,State.pendingCopy_of_not_copy hcopy]

theorem deliver {p : DataPacket} (hp : p ∈ tx) (hspares : s.SparesCopy (.arrive p)) :
    ∃ unseen' free', Receiving params isn tx (s.coreDeliver p) n unseen' free' lost := by
  rcases h.tracked.coreDeliver p with hsame | ⟨v,rest,rfl,htracked,havail,hv,heq⟩
  · rw [hsame]
    exact ⟨unseen,free,h⟩
  · have hnodup := h.tracked.sock.nodup
    have hunseen : ∀ i ∈ unseen, i≠v := by
      rintro i hi rfl
      simp only [append_assoc,nodup_append,mem_append,mem_cons] at hnodup
      exact hnodup.2.2 i hi i (.inl (.inl rfl)) rfl
    have hheld : ∀ i ∈ s.sock.held, i≠v := by
      rintro i hi rfl
      simp only [append_assoc,nodup_append,mem_append,mem_cons] at hnodup
      exact hnodup.2.1.2.2 i (.inl rfl) i (.inl hi) rfl
    have hpc : (s.coreDeliver p).pc=s.pc := by rw [heq]
    have hpending : (s.coreDeliver p).pendingCopy=s.pendingCopy := by
      rw [State.pendingCopy,State.pendingCopy,hpc]
      split
      · rename_i c idx off sz hcopy
        rw [State.SparesCopy,hcopy] at hspares
        have hne : idx≠v := fun hidx => hspares havail (hv.trans hidx.symm)
        rw [heq,bytesAt,bytesAt]
        simp [update_of_ne hne]
      · rfl
    refine ⟨unseen++[v],rest,htracked,?_,?_,?_,?_,?_⟩
    · intro i hi
      rw [heq]
      rcases mem_append.mp hi with hi | hi
      · simp only [update_of_ne (hunseen i hi)]
        exact h.unseen_mem i hi
      · rw [mem_singleton.mp hi]
        simpa using hp
    · refine h.window.congr ?_
      rw [heq]
      exact ⟨rfl,rfl,rfl,rfl,rfl,fun i hi => update_of_ne (hheld i hi) _ _⟩
    · rw [heq]
      exact h.reading
    · have hout : (s.coreDeliver p).output=s.output := by rw [heq]; rfl
      rw [hout,hpending,heq]
      exact h.output_eq
    · rw [heq]
      exact h.off_lt

theorem look (hnum : Numbered isn tx) (hlen : s.sock.synReceived=false → tx.length≤ndpInitialRxWindowSize)
    {call : Option RecvCall} {i m cci : Nat} {d : Socket} (hpc : s.pc=.check call i m cci)
    (hlt : i < m)
    (hlook : s.sock.lookAt (s.sock.rxRing.getElementAtWrapped (s.sock.rxConsumerShadow+i)) = some d) :
    ∃ unseen' free' lost', Receiving params isn tx
      { s with sock := d, pc := .check call (i+1) m cci } n unseen' free' lost' := by
  obtain ⟨unseen',free',lost',hunseen,htracked,-⟩ := h.tracked.look hpc hlt hlook
  obtain ⟨hbufs,-,hoff⟩ := lookAt_frame hlook
  have hsock := h.tracked.sock
  have hwindow := params.window_le
  have hmax := params.buffers_lt
  have hsize := hsock.wnd_size
  have hout := h.output_eq
  rw [output,State.pendingCopy,hpc] at hout
  refine ⟨unseen',free',lost',htracked,?_,?_,?_,?_,?_⟩
  · intro j hj
    rw [hbufs]
    exact h.unseen_mem j (hunseen ▸ mem_cons_of_mem _ hj)
  · refine h.window.lookAt hnum ?_ hlen (by omega) (by omega) hsock.wnd_index hlook
    exact h.unseen_mem _ (hunseen ▸ mem_cons_self)
  · rintro ⟨c,hread | ⟨idx,off,sz,hread⟩⟩ <;> cases hread
  · show _=readSoFar tx n d.recvPktOff
    rw [hoff]
    exact hout
  · show d.recvPktOff=0 ∨ _
    rw [hoff]
    exact h.off_lt

theorem endCheck {call : Option RecvCall} {i m cci : Nat} (hpc : s.pc=.check call i m cci) (hge : m ≤ i)
    (hmoved : State.MovedOn { s with sock := { s.sock with rxConsumerShadow := cci } } s') :
    Receiving params isn tx s' n unseen free lost := by
  obtain ⟨a,hsock⟩ := hmoved.sock_eq
  refine h.congr (h.tracked.endCheck hpc hge hmoved) (by rw [hsock]) ?_ (by rw [hsock]) hmoved.synReceived_of_reading ?_
  · rw [hsock]
    exact ⟨rfl,rfl,rfl,rfl,rfl,fun _ _ => rfl⟩
  · rw [hmoved.output_eq,hmoved.pendingCopy_eq,State.pendingCopy_of_not_copy (by simp [hpc])]
    rfl

theorem readPacket (hnum : Numbered isn tx)
    {c : RecvCall} {idx : Nat} (hpc : s.pc=.read c) (hidx : s.sock.nextIdx=some idx) :
    ∃ n' free', Receiving params isn tx (s.readPacket c idx) n' unseen free' lost := by
  have hsyn := h.reading ⟨c,.inl hpc⟩
  have hsock := h.tracked.sock
  have hafter : s.sock.WindowAfter isn tx n := by
    have hwindow := h.window
    rwa [Socket.Window,if_pos hsyn] at hwindow
  have hnext := hafter.next hnum hsock.wnd_index hidx
  have hn : n<tx.length := (List.getElem?_eq_some_iff.mp hnext).1
  have hout : s.returned++c.result=readSoFar tx n s.sock.recvPktOff := by
    have hall := h.output_eq
    rwa [State.pendingCopy,output,hpc,append_nil] at hall
  obtain ⟨free',htracked⟩ := h.tracked.readPacket hpc hidx
  rw [State.readPacket] at htracked ⊢
  split_ifs at htracked ⊢ with hpart
  · refine ⟨n,free',htracked,h.unseen_mem,?_,fun _ => hsyn,?_,.inr hn⟩
    · exact h.window.congr ⟨rfl,rfl,rfl,rfl,rfl,fun _ _ => rfl⟩
    · show s.returned++c.result++s.sock.bytesAt idx s.sock.recvPktOff c.len =
        readSoFar tx n (s.sock.recvPktOff+c.len)
      rw [hout,readSoFar_part hnext]
      rfl
  · refine ⟨n+1,free',htracked,h.unseen_mem,?_,fun _ => hsyn,?_,.inl rfl⟩
    · show (s.sock.deplete idx).Window isn tx (n+1)
      rw [Socket.Window,if_pos (show (s.sock.deplete idx).synReceived from hsyn)]
      exact hafter.deplete hn hsock.wnd_index
    · show s.returned++c.result++s.sock.bytesAt idx s.sock.recvPktOff (s.sock.unread idx) =
        readSoFar tx (n+1) 0
      rw [hout,readSoFar_rest hnext]
      rfl

theorem copy (htracked : s'.Tracked params unseen free lost) {c : RecvCall} {idx off sz : Nat}
    (hpc : s.pc=.copy c idx off sz) (hsock : ∃ a, s'.sock={ s.sock with acks := a })
    (hout : s'.output=s.output++s.sock.bytesAt idx off sz)
    (hpc' : s'.pc=.idle ∨ ∃ c, s'.pc=.read c) :
    Receiving params isn tx s' n unseen free lost := by
  obtain ⟨a,hacks⟩ := hsock
  have hnot (call idx off sz) : s'.pc≠.copy call idx off sz := by rcases hpc' with hpc' | ⟨c,hpc'⟩ <;> simp [hpc']
  refine h.congr htracked (by rw [hacks]) ?_ (by rw [hacks]) (fun _ => ?_) ?_
  · rw [hacks]
    exact s.sock.sameWindow_acks a
  · rw [hacks]
    exact h.reading ⟨c,.inr ⟨idx,off,sz,hpc⟩⟩
  · rw [State.pendingCopy_of_not_copy hnot,hout,append_nil,State.pendingCopy,hpc]

theorem step (hnum : Numbered isn tx) (hlen : s.sock.synReceived=false → tx.length≤ndpInitialRxWindowSize) {a : Action}
    (hsent : ∀ p, a=.arrive p → p ∈ tx) (hspares : s.SparesCopy a) (hstep : Ndp.step s a=some s') :
    ∃ n' unseen' free' lost', Receiving params isn tx s' n' unseen' free' lost' := by
  have hsock := h.tracked.sock
  cases step_effect hstep with
  | deliver p =>
    obtain ⟨unseen',free',h'⟩ := h.deliver (hsent p rfl) hspares
    exact ⟨n,unseen',free',lost,h'⟩
  | moveOn hcheck hcopy hmoved =>
    rw [nextUnseen_of_not_check hcheck] at hsock
    exact ⟨n,unseen,free,lost,h.movedOn (.movedOn hsock hmoved) hmoved hcopy⟩
  | startCheck hpc =>
    refine ⟨n,unseen,free,lost,h.congr (h.tracked.startCheck hpc) rfl ?_ rfl ?_ ?_⟩
    · exact ⟨rfl,rfl,rfl,rfl,rfl,fun _ _ => rfl⟩
    · rintro ⟨c,hread | ⟨idx,off,sz,hread⟩⟩ <;> cases hread
    · rw [output,output,State.pendingCopy,State.pendingCopy,hpc]
      rfl
  | look hpc hlt hlook =>
    obtain ⟨unseen',free',lost',h'⟩ := h.look hnum hlen hpc hlt hlook
    exact ⟨n,unseen',free',lost',h'⟩
  | endCheck hpc hge hmoved => exact ⟨n,unseen,free,lost,h.endCheck hpc hge hmoved⟩
  | read hpc hidx =>
    obtain ⟨n',free',h'⟩ := h.readPacket hnum hpc hidx
    exact ⟨n',unseen,free',lost,h'⟩
  | copy hpc hsock' hout hpc' =>
    have htracked := h.tracked.copy hpc hsock' hpc'
    exact ⟨n,unseen,free,lost,h.copy htracked hpc hsock' hout hpc'⟩
end Receiving

theorem step_synReceived {s s' : State} {a : Action} (hstep : step s a=some s')
    (hsyn : s.sock.synReceived) : s'.sock.synReceived := by
  cases step_effect hstep with
  | deliver p =>
    rw [coreDeliver]
    split_ifs <;> exact hsyn
  | moveOn _ _ hmoved | endCheck hpc hge hmoved =>
    obtain ⟨a,hsock⟩ := hmoved.sock_eq
    rw [hsock]
    exact hsyn
  | startCheck hpc => exact hsyn
  | look hpc hlt hlook =>
    rw [lookAt,if_pos hsyn] at hlook
    rcases dataAfterSyn_eq_some hlook with ⟨a,rfl⟩ | ⟨-,-,a,rfl⟩
    · exact hsyn
    · exact hsyn
  | read hpc hidx =>
    rw [State.readPacket]
    split_ifs <;> exact hsyn
  | copy hpc hsock =>
    obtain ⟨a,hsock⟩ := hsock
    rw [hsock]
    exact hsyn
namespace System

structure InOrder (params : ShmParams) (snd : SendParams) (s : System) : Prop where
  cuts : s.sender.Cuts snd.sendIsn
  no_wrap : snd.sendIsn.toNat+s.sender.packets.length<2^32
  window : s.receiver.sock.synReceived=false → s.sender.packets.length≤ndpInitialRxWindowSize
  receiving : ∃ n unseen free lost, Receiving params snd.sendIsn s.sender.txRing s.receiver n unseen free lost
variable {params : ShmParams} {snd : SendParams} {s s' : System}
theorem inOrder_init (params : ShmParams) (snd : SendParams) : (init params snd).InOrder params snd where
  cuts := cuts_init snd.sendIsn
  no_wrap := snd.sendIsn.isLt
  window _ := Nat.zero_le _
  receiving := ⟨0,[],List.range params.numRxPacketBuffers,[],.init params snd.sendIsn⟩

theorem InOrder.sendRound (h : s.InOrder params snd) (call : SendCall)
    (hwrap : s.sender.txPkbInUse=none → snd.sendIsn.toNat+(s.sender.packets.length+1)<2^32)
    (hwindow : s.sender.txPkbInUse=none → s.receiver.sock.synReceived=false →
      s.sender.packets.length<ndpInitialRxWindowSize) :
    InOrder params snd { s with sender := s.sender.sendRound snd.maxPayload call } := by
  obtain ⟨n,unseen,free,lost,hreceiving⟩ := h.receiving
  have hlen : (s.sender.sendRound snd.maxPayload call).packets.length =
      s.sender.packets.length + if s.sender.txPkbInUse=none then 1 else 0 := by
    rw [packets_sendRound,packets]
    cases s.sender.txPkbInUse <;> simp
  refine ⟨h.cuts.sendRound fun hnone => ?_,?_,fun hsyn => ?_,?_⟩
  · have := hwrap hnone
    omega
  · rw [hlen]
    split_ifs with hnone
    · exact hwrap hnone
    · exact h.no_wrap
  · rw [hlen]
    split_ifs with hnone
    · exact hwindow hnone hsyn
    · exact h.window hsyn
  · refine ⟨n,unseen,free,lost,?_⟩
    show Receiving params snd.sendIsn (if _ then _ else _) _ _ _ _ _
    split_ifs
    · exact hreceiving.append _
    · exact hreceiving

theorem InOrder.step (h : s.InOrder params snd) {e : Event} (hspares : s.SparesCopy e)
    (hstep : step snd s e=some s') : s'.InOrder params snd := by
  cases e with
  | send src onlySendFull dontBlock =>
    obtain ⟨x,hsend,rfl⟩ := map_eq_some_iff.mp hstep
    rw [Sender.ndpSend] at hsend
    split_ifs at hsend
    · cases hsend
      exact h
    · cases hsend
      exact ⟨⟨h.cuts.1,h.cuts.2,h.cuts.3,h.cuts.4⟩,h.no_wrap,h.window,h.receiving⟩
  | sendRun edge first =>
    rw [System.step] at hstep
    split_ifs at hstep with hedge
    obtain ⟨x,hsend,rfl⟩ := map_eq_some_iff.mp hstep
    rw [Sender.sendLoop] at hsend
    split at hsend
    · cases hsend
    · rename_i call hcall
      split_ifs at hsend with hwaits hblock
      · cases hsend
        exact ⟨⟨h.cuts.1,h.cuts.2,h.cuts.3,h.cuts.4⟩,h.no_wrap,h.window,h.receiving⟩
      · cases hsend
        exact h
      · cases hsend
        have hgoes (hnone : s.sender.txPkbInUse=none) :
            sendWaits s.sender.txNextSeqNumber edge first snd.numTxPacketBuffers=false := by
          simpa [hnone] using hwaits
        refine h.sendRound call (fun hnone => ?_) (fun hnone hsyn => ?_)
        · exact h.cuts.length_of_not_sendWaits h.no_wrap (hgoes hnone)
        · obtain rfl := hedge.resolve_left (by simp [hsyn])
          exact h.cuts.length_lt_of_not_sendWaits (h.window hsyn) (hgoes hnone)
  | receive a =>
    rw [System.step] at hstep
    split_ifs at hstep with hsends
    obtain ⟨r,hreceive,rfl⟩ := map_eq_some_iff.mp hstep
    obtain ⟨n,unseen,free,lost,hreceiving⟩ := h.receiving
    have hring : s.sender.txRing.length ≤ s.sender.packets.length := by
      rw [packets,length_append]
      exact Nat.le_add_right _ _
    refine ⟨h.cuts,h.no_wrap,fun hsyn => h.window ?_,?_⟩
    · by_contra hbefore
      rw [Bool.not_eq_false] at hbefore
      exact Bool.noConfusion ((step_synReceived hreceive hbefore).symm.trans hsyn)
    · refine hreceiving.step h.cuts.numbered.left (fun hsyn => ?_) ?_ hspares hreceive
      · exact hring.trans (h.window hsyn)
      · rintro p rfl
        simpa [Sender.sends] using hsends

theorem InOrder.prefix_accepted (h : s.InOrder params snd) : s.receiver.returned <+: s.sender.accepted := by
  obtain ⟨n,unseen,free,lost,hreceiving⟩ := h.receiving
  have hread : s.receiver.returned <+: readSoFar s.sender.txRing n s.receiver.sock.recvPktOff := by
    rw [← hreceiving.output_eq,output,append_assoc]
    exact prefix_append _ _
  have hring : (s.sender.txRing.map payload).flatten <+: s.sender.accepted := by
    rw [h.cuts.accepted_eq,packets,map_append,flatten_append]
    exact prefix_append _ _
  exact (hread.trans (readSoFar_prefix_payloads ..)).trans hring

/-- What `ndp_recv` has returned is a prefix of what `ndp_send` has accepted, in every run in which
the core spares the buffers that are being copied from. -/
theorem returned_prefix_accepted (params : ShmParams) (snd : SendParams) (es : List Event) (s : System)
    (hrun : exec (step snd) (init params snd) es=some s)
    (hspares : EachStep (step snd) SparesCopy (init params snd) es) : s.receiver.returned <+: s.sender.accepted := by
  have hinOrder : s.InOrder params snd :=
    exec_invariant (fun _ _ _ h hcond hstep => h.step hcond hstep) (inOrder_init params snd) hrun hspares
  exact hinOrder.prefix_accepted
section Runs
private def sampleSend : SendParams := ⟨7,4,512⟩
private def twoPackets : List Event := [.send [1,2,3,4,5,6,7,8] false false,.sendRun 207 7,.sendRun 207 7]
private def firstPacket : DataPacket := ⟨7,true,[1,2,3,4]⟩
private def secondPacket : DataPacket := ⟨8,false,[5,6,7,8]⟩

private def lookOnce : List Event :=
  [.receive .timeout,.receive (.run false),.receive (.run false),.receive (.run false)]

private def reordered : List Event :=
  twoPackets ++ .receive (.arrive secondPacket)::lookOnce ++ .receive (.arrive firstPacket)::lookOnce ++
    [.receive (.recv 3 false),.receive (.run false),.receive (.run false),
      .receive (.recv 3 false),.receive (.run false),.receive (.run false),
      .receive (.run false),.receive (.run false)]

theorem reordered_returned_inOrder : ∃ s, exec (step sampleSend) (init sampleParams sampleSend) reordered=some s ∧
      s.receiver.returned=[1,2,3,4,5,6] ∧ s.receiver.returned <+: s.sender.accepted := by
  have hinit : init sampleParams sampleSend = ⟨Sender.init 7,ready sampleParams⟩ := by
    rw [init,init_eq_ready]
    rfl
  have hrun : (exec (step sampleSend) (init sampleParams sampleSend) reordered).map
      (fun s => s.receiver.returned)=some [1,2,3,4,5,6] := by
    rw [hinit]
    decide +kernel
  obtain ⟨s,hs,hreturned⟩ := map_eq_some_iff.mp hrun
  refine ⟨s,hs,hreturned,returned_prefix_accepted sampleParams sampleSend reordered s hs ?_⟩
  rw [hinit]
  decide +kernel

/-- The second packet is repeated until it sits in all buffers but that of the first packet, and
once more while `ndp_recv` is about to copy the first packet. -/
private def overwritten : List Event :=
  twoPackets ++ .receive (.arrive firstPacket)::lookOnce ++ List.replicate 199 (.receive (.arrive secondPacket)) ++
    [.receive (.recv 4 false),.receive (.run false),.receive (.arrive secondPacket),.receive (.run false)]

theorem overwritten_not_inOrder : ∃ s, exec (step sampleSend) (init sampleParams sampleSend) overwritten=some s ∧
      s.receiver.returned=[5,6,7,8] ∧ ¬s.receiver.returned <+: s.sender.accepted := by
  have hrun : (exec (step sampleSend) (init sampleParams sampleSend) overwritten).map
      (fun s => (s.receiver.returned,s.sender.accepted)) =
      some ([5,6,7,8],[1,2,3,4,5,6,7,8]) := by
    rw [init,init_eq_ready]
    decide +kernel
  obtain ⟨s,hs,hbytes⟩ := map_eq_some_iff.mp hrun
  simp only [Prod.mk.injEq] at hbytes
  refine ⟨s,hs,hbytes.1,?_⟩
  rw [hbytes.1,hbytes.2]
  decide
end Runs
end System
end P4Benchmarks.Ndp
