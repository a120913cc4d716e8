import P4Benchmarks.Lib.Bytes
import P4Benchmarks.Lib.Execution
import P4Benchmarks.Ndp.Ring
/-!
# The receiving side of an NDP socket

`recv_aux.h` and `recv.c` of the library, and `rx.c` of the core.  The library is one sequential
process, since it holds `recv_lock`.  A step of it ends where it leaves a buffer to the core, or
where it has looked at one arrival.
-/
namespace P4Benchmarks.Ndp
open Lib
abbrev Seq := BitVec 32
def ndpMaxSeqDiff : Nat := 1000000000
def ndpInitialRxWindowSize : Nat := 200

/-- The parts of a data packet that the receiving side reads; `payload` is what `tot_len` leaves
after the two headers. -/
structure DataPacket where
  sequenceNumber : Seq
  syn : Bool
  payload : List Byte
deriving DecidableEq

/-- The sizes in `shm_params`; all buffer indices have to fit in `rx_ring`, where one position is
unusable. -/
structure ShmParams where
  (numRxPacketBuffers numRxRingElements : Nat)
  window_le : ndpInitialRxWindowSize≤numRxPacketBuffers
  buffers_lt_ring : numRxPacketBuffers<numRxRingElements
  buffers_lt : numRxPacketBuffers<2^31

/-- The fields that only decide about ACKs.  `sent` are the sequence numbers and receive windows
that went to `ack_tx_ring`. -/
structure AckState where
  pendingToBeAcked : Ring Nat
  largestAdvertisedRwndEdge : Seq
  sent : List (Seq × BitVec 32)
deriving DecidableEq

/-- A socket descriptor; an empty slot of the window ring is -1 in the source. -/
structure Socket where
  rxPacketBuffers : Nat → DataPacket
  rxRing : Ring Nat
  rxWndRing : Ring (Option Nat)
  rxConsumerShadow : Nat
  (anyPacketReceived synReceived : Bool)
  (recvIsn recvHigh recvLow recvPktSeq : Seq)
  recvPktOff : Nat
  acks : AckState

def AckState.sendAck (a : AckState) (seq rwndEdge : Seq) : AckState :=
  { a with sent := a.sent++[(seq,rwndEdge-seq)] }

def AckState.sendPending (bufs : Nat → DataPacket) (rwndEdge : Seq) : Nat → AckState → AckState
  | 0, a => a
  | n+1, a =>
    let (idx,pending) := a.pendingToBeAcked.consume
    AckState.sendPending bufs rwndEdge n
      (AckState.sendAck { a with pendingToBeAcked := pending } (bufs idx).sequenceNumber rwndEdge)

def AckState.advertise (a : AckState) (rwndEdge : Seq) : AckState :=
  if (rwndEdge-a.largestAdvertisedRwndEdge).toNat≤ndpMaxSeqDiff then
    { a with largestAdvertisedRwndEdge := rwndEdge }
  else a
namespace Socket
variable (d : Socket)
def rwndEdge : Seq := d.recvPktSeq+BitVec.ofNat 32 ndpInitialRxWindowSize
def sendAck (d : Socket) (seq rwndEdge : Seq) : Socket := { d with acks := d.acks.sendAck seq rwndEdge }

def sendPendingAcks (n : Nat) : Socket :=
  { d with
    acks :=
      if n=0 then d.acks
      else AckState.sendPending d.rxPacketBuffers d.rwndEdge n (d.acks.advertise d.rwndEdge) }

def ackWindow : Socket :=
  { d with
    acks :=
      let a := { d.acks with largestAdvertisedRwndEdge := d.rwndEdge }
      if d.recvPktSeq≠d.recvIsn then a.sendAck (d.recvPktSeq-1) d.rwndEdge else a }
variable (idx : Nat)
/-- `none` is `exit(1)`. -/
def addToPending : Option Socket :=
  if d.acks.pendingToBeAcked.producerAvailable≠0 then
    some { d with
      acks := { d.acks with pendingToBeAcked := d.acks.pendingToBeAcked.produce idx } }
  else none

def freeRxPkb : Option Socket :=
  if d.rxRing.producerAvailable≠0 then some { d with rxRing := d.rxRing.produce idx } else none

def seqOf : Seq := (d.rxPacketBuffers idx).sequenceNumber
def seqDiffAfterSyn : Nat := (d.seqOf idx-d.recvPktSeq).toNat

def dataAfterSyn : Option Socket :=
  if d.seqDiffAfterSyn idx > ndpMaxSeqDiff then
    -- an old packet
    (d.sendAck (d.seqOf idx) d.acks.largestAdvertisedRwndEdge).freeRxPkb idx
  else if d.seqDiffAfterSyn idx ≥ ndpInitialRxWindowSize then d.freeRxPkb idx
  else if (d.rxWndRing.getElementAtWrapped (d.rxWndRing.producerIndex+d.seqDiffAfterSyn idx)).isNone then
    addToPending
      { d with
        rxWndRing := d.rxWndRing.setElementAtWrapped (d.rxWndRing.producerIndex+d.seqDiffAfterSyn idx) (some idx) } idx
  else (d.sendAck (d.seqOf idx) d.acks.largestAdvertisedRwndEdge).freeRxPkb idx

def seqDiffBeforeSyn : Nat := (d.seqOf idx-d.recvLow).toNat

def earlierIndex : Nat :=
  d.rxWndRing.wrapIndex ((d.rxWndRing.producerIndex+d.rxWndRing.numElements+d.seqDiffBeforeSyn idx)%2^32)

def noteSyn : Socket :=
  if (d.rxPacketBuffers idx).syn then
    { d with
      synReceived := true
      recvIsn := d.seqOf idx
      recvPktSeq := d.seqOf idx
      acks := { d.acks with
        largestAdvertisedRwndEdge := d.seqOf idx+BitVec.ofNat 32 ndpInitialRxWindowSize } }
  else d

def acceptBeforeSyn : Option Socket := (d.addToPending idx).map fun d => d.noteSyn idx

def dataBeforeSyn : Option Socket :=
  if !d.anyPacketReceived then
    acceptBeforeSyn
      { d with
        recvLow := d.seqOf idx
        recvHigh := d.seqOf idx
        anyPacketReceived := true
        rxWndRing := d.rxWndRing.setElementAt 0 (some idx) } idx
  else if d.seqDiffBeforeSyn idx > ndpMaxSeqDiff then
    -- an earlier packet than all before it
    if (d.recvHigh-d.seqOf idx+1).toNat ≥ d.rxWndRing.numElements then none
    else
      acceptBeforeSyn
        { d with
          recvLow := d.seqOf idx
          rxWndRing := Ring.setElementAt
            { d.rxWndRing with producerIndex := d.earlierIndex idx } (d.earlierIndex idx)
            (some idx) } idx
  else if d.seqDiffBeforeSyn idx+1 > ndpInitialRxWindowSize then d.freeRxPkb idx
  else
    acceptBeforeSyn
      { d with
        rxWndRing := d.rxWndRing.setElementAtWrapped (d.rxWndRing.producerIndex+d.seqDiffBeforeSyn idx) (some idx) } idx

def lookAt : Option Socket := if d.synReceived then d.dataAfterSyn idx else d.dataBeforeSyn idx
def nextIdx : Option Nat := d.rxWndRing.getElementAt d.rxWndRing.producerIndex

def numArrivals (cci : Nat) : Nat :=
  if cci ≥ d.rxConsumerShadow then cci-d.rxConsumerShadow
  else d.rxRing.numElements-d.rxConsumerShadow+cci

def unread : Nat := (d.rxPacketBuffers idx).payload.length-d.recvPktOff

/-- A buffer that has been read to its end leaves the window and is produced into `rx_ring`. -/
def deplete : Socket :=
  { d with
    recvPktOff := 0
    recvPktSeq := d.recvPktSeq+1
    rxWndRing := (d.rxWndRing.setElementAt d.rxWndRing.producerIndex none).producerAdvance 1
    rxRing := if d.rxRing.producerAvailable≠0 then d.rxRing.produce idx else d.rxRing }

def bytesAt (idx off sz : Nat) : List Byte := ((d.rxPacketBuffers idx).payload.drop off).take sz
end Socket

structure RecvCall where
  dontBlock : Bool
  len : Nat
  result : List Byte
  (newDataPackets numDepletedBuffers : Nat)
deriving DecidableEq

def RecvCall.copied (call : RecvCall) (bytes : List Byte) (sz : Nat) : RecvCall :=
  { call with result := call.result++bytes, len := call.len-sz }

/-- Where the library is.  Without a call, it is the timeout thread that checks for arrivals. -/
inductive Pc where
  | idle
  | poll (call : Option RecvCall)
  | check (call : Option RecvCall) (i numArrivals cci : Nat)
  | read (call : RecvCall)
  | copy (call : RecvCall) (idx off sz : Nat)
deriving DecidableEq

structure State where
  sock : Socket
  pc : Pc
  returned : List Byte
namespace State
variable (s : State) (call : RecvCall)
def unlockAndReturn : State := { s with pc := .idle, returned := s.returned++call.result }
variable (timedOut : Bool)
/-- After `check_for_incoming_data` has returned `n`.  `timedOut` tells whether
`cycles_per_timeout` have passed. -/
def afterCheck (s : State) (call : Option RecvCall) (n : Nat) : State :=
  match call with
  | none => { s with sock := s.sock.sendPendingAcks n, pc := .idle }
  | some c =>
    if n=0 then
      if c.dontBlock then s.unlockAndReturn c
      else if s.sock.synReceived&&timedOut then { s with sock := s.sock.ackWindow, pc := .poll (some c) }
      else { s with pc := .poll (some c) }
    else if s.sock.nextIdx.isNone then
      if c.dontBlock then unlockAndReturn { s with sock := s.sock.sendPendingAcks n } c
      else { s with sock := s.sock.sendPendingAcks n, pc := .poll (some c) }
    else { s with pc := .read { c with newDataPackets := n } }

def startCheck (s : State) (call : Option RecvCall) : State :=
  if s.sock.rxRing.consumerIndex=s.sock.rxConsumerShadow then s.afterCheck timedOut call 0
  else
    { s with
      pc := .check call 0 (s.sock.numArrivals s.sock.rxRing.consumerIndex) s.sock.rxRing.consumerIndex }

def endCheck (s : State) (call : Option RecvCall) (cci : Nat) : State :=
  afterCheck timedOut { s with sock := { s.sock with rxConsumerShadow := cci } } call
    (if s.sock.synReceived then s.sock.acks.pendingToBeAcked.consumerAvailable else 0)

def readPacket (idx : Nat) : State :=
  if s.sock.unread idx > call.len then
    { s with
      sock := { s.sock with recvPktOff := s.sock.recvPktOff+call.len }
      pc := .copy call idx s.sock.recvPktOff call.len }
  else
    { s with
      sock := s.sock.deplete idx
      pc := .copy { call with numDepletedBuffers := call.numDepletedBuffers+1 } idx
        s.sock.recvPktOff (s.sock.unread idx) }

def finishRecv : State :=
  if call.newDataPackets≠0 then
    unlockAndReturn { s with sock := s.sock.sendPendingAcks call.newDataPackets } call
  else if call.numDepletedBuffers≠0 ∧ s.sock.synReceived ∧ s.sock.recvPktSeq≠s.sock.recvIsn then
    unlockAndReturn { s with sock := s.sock.ackWindow } call
  else s.unlockAndReturn call

def afterCopy : State := if call.len=0 then s.finishRecv call else { s with pc := .read call }

def libraryStep (s : State) : Option State :=
  match s.pc with
  | .idle => none
  | .poll call => some (s.startCheck timedOut call)
  | .check call i numArrivals cci =>
    if i<numArrivals then
      (s.sock.lookAt (s.sock.rxRing.getElementAtWrapped (s.sock.rxConsumerShadow+i))).map
        fun d => { s with sock := d, pc := .check call (i+1) numArrivals cci }
    else some (s.endCheck timedOut call cci)
  | .read call =>
    match s.sock.nextIdx with
    | none => some (s.finishRecv call)
    | some idx => some (s.readPacket call idx)
  | .copy call idx off sz => some (s.afterCopy (call.copied (s.sock.bytesAt idx off sz) sz))

def ndpRecv (len : Nat) (dontBlock : Bool) : State :=
  let call : RecvCall := ⟨dontBlock,len,[],0,0⟩
  if len=0 then s
  else if s.sock.nextIdx.isNone then { s with pc := .poll (some call) }
  else if s.sock.synReceived then { s with pc := .read call }
  else if dontBlock then s.unlockAndReturn call
  else { s with pc := .poll (some call) }

def coreDeliver (p : DataPacket) : State :=
  if s.sock.rxRing.consumerAvailable≠0 then
    { s with
      sock := { s.sock with
        rxPacketBuffers := Function.update s.sock.rxPacketBuffers
          (s.sock.rxRing.getElementAt s.sock.rxRing.consumerIndex) p
        rxRing := s.sock.rxRing.consumerAdvance 1 } }
  else s
end State

inductive Action where
  | arrive (p : DataPacket)
  | recv (len : Nat) (dontBlock : Bool)
  | timeout
  | run (timedOut : Bool)
deriving DecidableEq

/-- `none` is `exit(1)`, or an action that is not possible where the library is. -/
def step (s : State) : Action → Option State
  | .arrive p => some (s.coreDeliver p)
  | .recv len dontBlock => if s.pc=.idle then some (s.ndpRecv len dontBlock) else none
  | .timeout => if s.pc=.idle then some { s with pc := .poll none } else none
  | .run timedOut => s.libraryStep timedOut

def resetRxPacketBuffer (rxRing : Ring Nat) (idx : Nat) : Ring Nat :=
  if rxRing.producerAvailable≠0 then rxRing.produce idx else rxRing

def Socket.init (params : ShmParams) : Socket where
  rxPacketBuffers := fun _ => ⟨0,false,[]⟩
  rxRing := (List.range params.numRxPacketBuffers).foldl resetRxPacketBuffer (Ring.init params.numRxRingElements 0)
  rxWndRing := Ring.init (params.numRxPacketBuffers+1) none
  rxConsumerShadow := 0
  anyPacketReceived := false
  synReceived := false
  recvIsn := 0
  recvHigh := 0
  recvLow := 0
  recvPktSeq := 0
  recvPktOff := 0
  acks := ⟨Ring.init (params.numRxPacketBuffers+1) 0,0,[]⟩

def State.init (params : ShmParams) : State := ⟨Socket.init params,.idle,[]⟩
end P4Benchmarks.Ndp
