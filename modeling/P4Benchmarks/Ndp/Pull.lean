import P4Benchmarks.Ndp.Receiver
/-!
# Pulls

The receiver numbers its PULL packets, and each new number is an allowance for one data packet.  The
rounds of the loops in `tx.c` are steps of their own.
-/
namespace P4Benchmarks.Ndp
open Lib List BitVec
/-- What pulls and sends use of a `core_socket_descriptor`; `libReadyToSend` is the flag of the
packet buffers. -/
structure CoreSocket where
  (txAllowance highestPullSent highestPullRcvd : BitVec 32)
  (txRing rtxRing toRtxRing : List Nat)
  libReadyToSend : Nat → Bool

inductive InstanceOp where
  | close | terminate

namespace CoreSocket

def zeroed : CoreSocket := ⟨0,0,0,[],[],[],fun _ => false⟩
variable (d : CoreSocket)

/-- The release of a descriptor in `check_comm_rings`: a close clears it, the end of the instance
does not. -/
def release : InstanceOp → CoreSocket
  | .close => zeroed
  | .terminate => d

/-- `get_socket_descriptor` with the rings of the new socket, and `prepare_socket_descriptor`. -/
def prepareSocketDescriptor (ndpCoreInitialTxAllowance : BitVec 32) : CoreSocket :=
  { zeroed with
    txAllowance := ndpCoreInitialTxAllowance
    highestPullSent := d.highestPullSent
    highestPullRcvd := d.highestPullRcvd }

def sendPacketBuffer : CoreSocket := { d with txAllowance := d.txAllowance-1 }

def checkTxRing (nicTakes : Bool) : CoreSocket × Bool :=
  match d.txRing with
  | [] => (d,false)
  | _::ring =>
    if d.txAllowance=0 ∨ !nicTakes then (d,false)
    else ({ d.sendPacketBuffer with txRing := ring },true)
variable (isTimeout : Bool)
def rtxRingFor : List Nat := if isTimeout then d.toRtxRing else d.rtxRing

def setRtxRing (ring : List Nat) : CoreSocket :=
  if isTimeout then { d with toRtxRing := ring } else { d with rtxRing := ring }

/-- A round of `check_rtx_ring`, and whether a packet is sent.  An entry whose buffer is not ready is
dropped; a timeout gives the allowance back. -/
def checkRtxRing (d : CoreSocket) (nicTakes : Bool) : CoreSocket × Bool :=
  match d.rtxRingFor isTimeout with
  | [] => (d,false)
  | pbIdx::ring =>
    if d.txAllowance=0 ∧ !isTimeout then (d,false)
    else if !d.libReadyToSend pbIdx then (d.setRtxRing isTimeout ring,false)
    else if !nicTakes then (d,false)
    else
      let d := d.sendPacketBuffer
      let d := if isTimeout then { d with txAllowance := d.txAllowance+1 } else d
      (d.setRtxRing isTimeout ring,true)

def sendPullPacket : CoreSocket × BitVec 32 :=
  ({ d with highestPullSent := d.highestPullSent+1 },d.highestPullSent+1)

def txAlwInc (d : CoreSocket) (pullNumber : BitVec 32) : BitVec 32 :=
  let diff := pullNumber-d.highestPullRcvd
  let txAlwInc : BitVec 32 := if diff.toNat > ndpMaxSeqDiff then 1 else 0
  (txAlwInc-1)&&&diff

def recvPull (pullNumber : BitVec 32) : CoreSocket :=
  { d with
    txAllowance := d.txAllowance+d.txAlwInc pullNumber
    highestPullRcvd := d.highestPullRcvd+d.txAlwInc pullNumber }
end CoreSocket

/-- The two ends of a connection.  `pulls` are the numbers of all PULL packets that were sent, the
oldest first.  `received` are the positions, from 1 on, of those that have arrived, `granted` is the
sum of the increments, and `sent` counts the data packets apart from timeouts. -/
structure PullSystem where
  (sender receiver : CoreSocket)
  pulls : List (BitVec 32)
  received : List Nat
  (granted sent : Nat)

inductive PullAction where
  | sendPull
  /-- The pull with index `i` arrives; nothing prevents it from arriving late or again. -/
  | pullArrives (i : Nat)
  | txRound (nicTakes : Bool)
  | rtxRound (isTimeout nicTakes : Bool)
  | produceTx (pbIdx : Nat)
  | produceRtx (pbIdx : Nat)
  | produceToRtx (pbIdx : Nat)
  | setReady (pbIdx : Nat) (ready : Bool)
namespace PullSystem
def init (ndpCoreInitialTxAllowance : BitVec 32) (sender receiver : CoreSocket) : PullSystem :=
  ⟨sender.prepareSocketDescriptor ndpCoreInitialTxAllowance,
    receiver.prepareSocketDescriptor ndpCoreInitialTxAllowance,[],[],0,0⟩
variable (s : PullSystem)
def highest : Nat := s.received.foldr max 0

def afterRound (isTimeout : Bool) (r : CoreSocket × Bool) : PullSystem :=
  { s with sender := r.1, sent := if r.2&&!isTimeout then s.sent+1 else s.sent }

def step : PullAction → Option PullSystem
  | .sendPull =>
    let (receiver,pullNumber) := s.receiver.sendPullPacket
    some { s with receiver := receiver, pulls := s.pulls++[pullNumber] }
  | .pullArrives i => do
    let pullNumber ← s.pulls[i]?
    return { s with
      sender := s.sender.recvPull pullNumber
      received := (i+1)::s.received
      granted := s.granted+(s.sender.txAlwInc pullNumber).toNat }
  | .txRound nicTakes => some (s.afterRound false (s.sender.checkTxRing nicTakes))
  | .rtxRound isTimeout nicTakes => some (s.afterRound isTimeout (s.sender.checkRtxRing isTimeout nicTakes))
  | .produceTx pbIdx => some { s with sender := { s.sender with txRing := s.sender.txRing++[pbIdx] } }
  | .produceRtx pbIdx => some { s with sender := { s.sender with rtxRing := s.sender.rtxRing++[pbIdx] } }
  | .produceToRtx pbIdx => some { s with sender := { s.sender with toRtxRing := s.sender.toRtxRing++[pbIdx] } }
  | .setReady pbIdx ready =>
    some { s with
      sender := { s.sender with libReadyToSend := Function.update s.sender.libReadyToSend pbIdx ready } }

/-- A pull that arrives is less than `NDP_MAX_SEQ_DIFF` away from the highest one so far. -/
def Near : PullAction → Prop
  | .pullArrives i => i+1 < s.highest+ndpMaxSeqDiff ∧ s.highest < i+1+ndpMaxSeqDiff
  | _ => True

instance (s : PullSystem) : ∀ a, Decidable (s.Near a)
  | .pullArrives _ => inferInstanceAs (Decidable (_ ∧ _))
  | .sendPull | .txRound _ | .rtxRound _ _ | .produceTx _ | .produceRtx _ | .produceToRtx _
  | .setReady _ _ => .isTrue trivial
end PullSystem
namespace CoreSocket
variable {d : CoreSocket} {H n : Nat}
theorem txAlwInc_toNat (hd : d.highestPullRcvd=.ofNat 32 H) (hn : n<H+ndpMaxSeqDiff)
    (hH : H<n+ndpMaxSeqDiff) : (d.txAlwInc (.ofNat 32 n)).toNat=n-H := by
  have hdiff : (.ofNat 32 n-d.highestPullRcvd).toNat =
      if H≤n then n-H else 2^32-(H-n) := by
    rw [hd,toNat_sub,toNat_ofNat,toNat_ofNat]
    simp only [ndpMaxSeqDiff] at hn hH
    split_ifs <;> omega
  simp only [txAlwInc,hdiff]
  by_cases hle : H≤n
  · have hsmall : ¬n-H > ndpMaxSeqDiff := by omega
    have hmask : (0 : BitVec 32)-1=BitVec.allOnes 32 := rfl
    rw [if_pos hle] at hdiff ⊢
    rw [if_neg hsmall,hmask,allOnes_and,hdiff]
  · have hlarge : 2^32-(H-n) > ndpMaxSeqDiff := by
      simp only [ndpMaxSeqDiff] at hH ⊢
      omega
    rw [if_neg hle,if_pos hlarge]
    simp
    omega

theorem toNat_sendPacketBuffer (h : d.txAllowance≠0) : d.sendPacketBuffer.txAllowance.toNat+1=d.txAllowance.toNat := by
  have hpos : d.txAllowance.toNat≠0 := fun hzero => h (eq_of_toNat_eq hzero)
  rw [sendPacketBuffer,toNat_sub]
  simp
  omega

@[simp]
theorem setRtxRing_txAllowance (d : CoreSocket) (isTimeout : Bool) (ring : List Nat) :
    (d.setRtxRing isTimeout ring).txAllowance=d.txAllowance := by
  cases isTimeout <;> rfl

@[simp]
theorem setRtxRing_highestPullRcvd (d : CoreSocket) (isTimeout : Bool) (ring : List Nat) :
    (d.setRtxRing isTimeout ring).highestPullRcvd=d.highestPullRcvd := by
  cases isTimeout <;> rfl

structure Spends (isTimeout : Bool) (d : CoreSocket) (r : CoreSocket × Bool) : Prop where
  highest : r.1.highestPullRcvd=d.highestPullRcvd
  allowance : r.1.txAllowance.toNat+(r.2&&!isTimeout).toNat=d.txAllowance.toNat

theorem Spends.balance {isTimeout : Bool} {d : CoreSocket} {r : CoreSocket × Bool} (h : Spends isTimeout d r) :
    r.1.txAllowance+.ofNat 32 (r.2&&!isTimeout).toNat = d.txAllowance := by
  have hnat := congrArg (BitVec.ofNat 32) h.allowance
  rwa [ofNat_add,ofNat_toNat,ofNat_toNat,setWidth_eq,setWidth_eq] at hnat

theorem spends_checkTxRing (d : CoreSocket) (nicTakes : Bool) : Spends false d (d.checkTxRing nicTakes) := by
  rw [checkTxRing]
  cases d.txRing with
  | nil => exact ⟨rfl,rfl⟩
  | cons pbIdx ring =>
    by_cases hstop : d.txAllowance=0 ∨ !nicTakes
    · simp only [if_pos hstop]
      exact ⟨rfl,rfl⟩
    · simp only [if_neg hstop]
      exact ⟨rfl,toNat_sendPacketBuffer (not_or.mp hstop).1⟩

theorem spends_checkRtxRing (isTimeout : Bool) (d : CoreSocket) (nicTakes : Bool) :
    Spends isTimeout d (d.checkRtxRing isTimeout nicTakes) := by
  rw [checkRtxRing]
  cases d.rtxRingFor isTimeout with
  | nil => exact ⟨rfl,rfl⟩
  | cons pbIdx ring =>
    dsimp only
    split_ifs with hstop hready hnic htimeout
    · exact ⟨rfl,rfl⟩
    · exact ⟨by simp,by simp⟩
    · exact ⟨rfl,rfl⟩
    · refine ⟨by simp [sendPacketBuffer],?_⟩
      rw [sendPacketBuffer,BitVec.sub_add_cancel]
      simp [htimeout]
    · have hallowance : d.txAllowance≠0 := fun hzero => hstop ⟨hzero,by simp [htimeout]⟩
      refine ⟨by simp [sendPacketBuffer],?_⟩
      simpa [htimeout] using toNat_sendPacketBuffer hallowance
end CoreSocket
namespace PullSystem
variable {initial : BitVec 32} {s t : PullSystem}
/-- Numbers are counted from 1 on at both ends, and what is granted and not sent is left. -/
structure Accounted (initial : BitVec 32) (s : PullSystem) : Prop where
  numbers : s.pulls=(List.range s.pulls.length).map fun i => .ofNat 32 (i+1)
  next : s.receiver.highestPullSent=.ofNat 32 s.pulls.length
  rcvd : s.sender.highestPullRcvd=.ofNat 32 s.highest
  issued : s.highest ≤ s.pulls.length
  granted : s.granted=s.highest
  spent : s.sent+s.sender.txAllowance.toNat ≤ initial.toNat+s.granted
  balance : s.sender.txAllowance+.ofNat 32 s.sent = initial+.ofNat 32 s.granted

theorem Accounted.init {sender receiver : CoreSocket} (hsender : sender.highestPullRcvd = 0)
    (hreceiver : receiver.highestPullSent = 0) : Accounted initial (init initial sender receiver) :=
  ⟨rfl,hreceiver,hsender,le_rfl,rfl,(Nat.zero_add _).le,rfl⟩

variable (hs : Accounted initial s)
include hs
variable {i : Nat} {pullNumber : BitVec 32}
theorem Accounted.getElem? (hi : s.pulls[i]?=some pullNumber) : pullNumber=.ofNat 32 (i+1) ∧ i < s.pulls.length := by
  obtain ⟨hlt,-⟩ := List.getElem?_eq_some_iff.mp hi
  rw [hs.numbers,List.getElem?_map,List.getElem?_range hlt] at hi
  exact ⟨(Option.some.inj hi).symm,hlt⟩

theorem Accounted.sendPull {d : CoreSocket} (hsend : s.receiver.sendPullPacket=(d,pullNumber)) :
    Accounted initial { s with receiver := d, pulls := s.pulls++[pullNumber] } := by
  obtain ⟨hd,hnumber⟩ := Prod.mk.inj hsend
  have hnext : s.receiver.highestPullSent+1=.ofNat 32 (s.pulls.length+1) := by
    rw [hs.next,ofNat_add]
    rfl
  refine ⟨?_,?_,hs.rcvd,?_,hs.granted,hs.spent,hs.balance⟩
  · rw [length_append,length_singleton,range_succ,map_append,← hs.numbers,
      map_singleton,← hnext,← hnumber]
  · rw [length_append,length_singleton,← hnext,← hd]
  · rw [length_append]
    exact Nat.le_add_right_of_le hs.issued

theorem Accounted.txAlwInc (hnear : Near s (.pullArrives i)) (hi : s.pulls[i]?=some pullNumber) :
    (s.sender.txAlwInc pullNumber).toNat=i+1-s.highest := by
  rw [(hs.getElem? hi).1]
  exact CoreSocket.txAlwInc_toNat hs.rcvd hnear.1 hnear.2

theorem Accounted.recvPull (hnear : Near s (.pullArrives i)) (hi : s.pulls[i]?=some pullNumber) : Accounted initial
      { s with
        sender := s.sender.recvPull pullNumber
        received := (i+1)::s.received
        granted := s.granted+(s.sender.txAlwInc pullNumber).toNat } := by
  have hinc := hs.txAlwInc hnear hi
  have hlt := (hs.getElem? hi).2
  have hissued := hs.issued
  have hmax : max (i+1) s.highest=s.highest+(i+1-s.highest) := by omega
  refine ⟨hs.numbers,hs.next,?_,?_,?_,?_,?_⟩
  · show s.sender.highestPullRcvd+s.sender.txAlwInc pullNumber=.ofNat 32 (max (i+1) s.highest)
    rw [hs.rcvd,hmax,← hinc,ofNat_add,ofNat_toNat,setWidth_eq]
  · show max (i+1) s.highest ≤ s.pulls.length
    omega
  · show s.granted+(s.sender.txAlwInc pullNumber).toNat=max (i+1) s.highest
    rw [hinc,hs.granted,hmax]
  · have hspent := hs.spent
    have hadd : (s.sender.recvPull pullNumber).txAllowance.toNat ≤
        s.sender.txAllowance.toNat+(s.sender.txAlwInc pullNumber).toNat := by
      exact Nat.mod_le _ _
    dsimp only
    omega
  · show s.sender.txAllowance+s.sender.txAlwInc pullNumber+.ofNat 32 s.sent =
      initial+.ofNat 32 (s.granted+(s.sender.txAlwInc pullNumber).toNat)
    rw [ofNat_add,ofNat_toNat,setWidth_eq,← BitVec.add_assoc,← hs.balance]
    ac_rfl

theorem Accounted.round {isTimeout : Bool} {r : CoreSocket × Bool} (hr : CoreSocket.Spends isTimeout s.sender r) :
    Accounted initial (s.afterRound isTimeout r) := by
  refine ⟨hs.numbers,hs.next,hr.highest.trans hs.rcvd,hs.issued,hs.granted,?_,?_⟩
  · have hspent := hs.spent
    have hallowance := hr.allowance
    simp only [afterRound]
    cases hsent : r.2&&!isTimeout <;> simp [hsent] at hallowance ⊢ <;> omega
  · have hbalance := hs.balance
    rw [← hr.balance] at hbalance
    simp only [afterRound]
    rw [← hbalance]
    cases r.2&&!isTimeout
    · simp
    · simp only [if_true,Bool.toNat_true,ofNat_add]
      ac_rfl

theorem Accounted.step {a : PullAction} (hnear : Near s a) (hstep : s.step a=some t) : Accounted initial t := by
  cases a with
  | sendPull =>
    cases hstep
    exact hs.sendPull rfl
  | pullArrives i =>
    obtain ⟨pullNumber,hi,heq⟩ := Option.bind_eq_some_iff.mp hstep
    cases heq
    exact hs.recvPull hnear hi
  | txRound nicTakes =>
    cases hstep
    exact hs.round (CoreSocket.spends_checkTxRing _ _)
  | rtxRound isTimeout nicTakes =>
    cases hstep
    exact hs.round (CoreSocket.spends_checkRtxRing _ _ _)
  | produceTx pbIdx | produceRtx pbIdx | produceToRtx pbIdx | setReady pbIdx ready =>
    cases hstep
    exact ⟨hs.numbers,hs.next,hs.rcvd,hs.issued,hs.granted,hs.spent,hs.balance⟩

theorem Accounted.old_pull (hnear : Near s (.pullArrives i)) (hold : i+1 ≤ s.highest)
    (hstep : s.step (.pullArrives i)=some t) : t.sender=s.sender := by
  obtain ⟨pullNumber,hi,heq⟩ := Option.bind_eq_some_iff.mp hstep
  have hinc := hs.txAlwInc hnear hi
  rw [Nat.sub_eq_zero_of_le hold] at hinc
  have hzero : s.sender.txAlwInc pullNumber=0 := eq_of_toNat_eq hinc
  cases heq
  simp [CoreSocket.recvPull,hzero]
end PullSystem

/-- In every run of two descriptors with pull counters 0, the allowance that was granted is the
highest number that arrived, what the sender has is the first allowance and the granted one without
the packets sent, pulls that are not new grant nothing, and there are no more data packets than the
first allowance and the pulls account for. -/
theorem pulls_accounted {initial : BitVec 32} {sender receiver : CoreSocket} {as : List PullAction}
    {s : PullSystem} (hsender : sender.highestPullRcvd = 0) (hreceiver : receiver.highestPullSent = 0)
    (hrun : exec PullSystem.step (.init initial sender receiver) as = some s)
    (hnear : EachStep PullSystem.step PullSystem.Near (.init initial sender receiver) as) :
    s.granted = s.highest ∧
      s.sender.txAllowance = initial+.ofNat 32 s.granted-.ofNat 32 s.sent ∧
      (∀ i t, s.Near (.pullArrives i) → i+1 ≤ s.highest → s.step (.pullArrives i) = some t →
        t.sender = s.sender) ∧
      s.sent ≤ initial.toNat+s.pulls.length := by
  have hs : s.Accounted initial :=
    exec_invariant (fun _ _ _ hs hnear hstep => hs.step hnear hstep) (.init hsender hreceiver) hrun hnear
  refine ⟨hs.granted,?_,fun i t hnear hold hstep => hs.old_pull hnear hold hstep,?_⟩
  · rw [← hs.balance,BitVec.add_sub_cancel]
  · have hspent := hs.spent
    have hgranted := hs.granted
    have hissued := hs.issued
    omega

private def swappedPulls : List PullAction :=
  [.sendPull,.sendPull,.pullArrives 1,.pullArrives 0,.produceTx 4,.txRound true]

theorem swappedPulls_accounted : ∃ s, exec PullSystem.step (.init 10 .zeroed .zeroed) swappedPulls = some s ∧
    s.granted = s.highest ∧ s.sender.txAllowance = 10+.ofNat 32 s.granted-.ofNat 32 s.sent := by
  have hrun : exec PullSystem.step (.init 10 .zeroed .zeroed) swappedPulls = some _ := rfl
  have haccounted := pulls_accounted rfl rfl hrun (by decide)
  exact ⟨_,hrun,haccounted.1,haccounted.2.1⟩

/-- A descriptor that received a pull and was released by the end of its instance: the first pull of
its next connection grants nothing. -/
theorem reused_descriptor_grants_nothing :
    ∃ old s, exec PullSystem.step (.init 10 .zeroed .zeroed) [.sendPull,.pullArrives 0] = some old ∧
      exec PullSystem.step (.init 10 (old.sender.release .terminate) .zeroed) [.sendPull,.pullArrives 0] = some s ∧
      EachStep PullSystem.step PullSystem.Near (.init 10 (old.sender.release .terminate) .zeroed)
        [.sendPull,.pullArrives 0] ∧
      s.granted = 0 ∧ s.highest = 1 :=
  ⟨_,_,rfl,rfl,by decide,rfl,rfl⟩
end P4Benchmarks.Ndp
