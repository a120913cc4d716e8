import Mathlib.Data.Finset.Card
import P4Benchmarks.Ndp.Sender
/-!
# The window of the sender

`ndp_send` numbers packet buffers; `check_acks` gives those of acknowledged packets back.  What the
packets hold is left to `Sender`.
-/
namespace P4Benchmarks.Ndp
open Lib
structure TxPkb where
  (libInUse libReadyToSend : Bool)
  sequenceNumber : Seq
  (bytesLeft timeoutRef : Nat)
deriving DecidableEq

structure TxParams where
  (numTxPacketBuffers maxPayload : Nat)
  buffers_pos : 0<numTxPacketBuffers
  buffers_le : numTxPacketBuffers≤ndpMaxSeqDiff
deriving DecidableEq

structure TxSocket where
  (sendIsn txNextSeqNumber txFirstNotAck remoteRwndEdge : Seq)
  txPkbInUse : Option Nat
  txAvPkbRing : Ring Nat
  txWndRing : Ring Bool
  txPacketBuffers : Nat → TxPkb
  txRing : List Nat
namespace TxSocket
variable (params : TxParams) (d : TxSocket)
def setPkb (idx : Nat) (pb : TxPkb) : TxSocket :=
  { d with txPacketBuffers := Function.update d.txPacketBuffers idx pb }

def resetTxPacketBuffer (idx : Nat) : TxSocket :=
  let d := d.setPkb idx
    { d.txPacketBuffers idx with
      libInUse := false
      libReadyToSend := false
      bytesLeft := params.maxPayload }
  if d.txAvPkbRing.producerAvailable≠0 then { d with txAvPkbRing := d.txAvPkbRing.produce idx }
  else d

def init (sendIsn : Seq) (pkbs : Nat → TxPkb) : TxSocket :=
  (List.range params.numTxPacketBuffers).foldl (resetTxPacketBuffer params)
    { sendIsn := sendIsn
      txNextSeqNumber := sendIsn
      txFirstNotAck := sendIsn
      remoteRwndEdge := initialEdge sendIsn
      txPkbInUse := none
      txAvPkbRing := .init (params.numTxPacketBuffers+1) 0
      txWndRing := .init (params.numTxPacketBuffers+1) false
      txPacketBuffers := pkbs
      txRing := [] }

def waits : Bool :=
  sendWaits d.txNextSeqNumber d.remoteRwndEdge d.txFirstNotAck (.ofNat 32 params.numTxPacketBuffers)

def openPkb : TxSocket × Nat :=
  let (idx,ring) := d.txAvPkbRing.consume
  let d := { d with txAvPkbRing := ring, txPkbInUse := some idx }
  let d := d.setPkb idx
    { d.txPacketBuffers idx with libInUse := true, sequenceNumber := d.txNextSeqNumber }
  ({ d with txNextSeqNumber := d.txNextSeqNumber+1 },idx)

/-- Copy up to `left` bytes into the buffer in use, and send it if it is full or need not be. -/
def fillPkb (idx left : Nat) (onlySendFull : Bool) : TxSocket :=
  let pb := d.txPacketBuffers idx
  let pb := { pb with bytesLeft := pb.bytesLeft-min pb.bytesLeft left }
  if pb.bytesLeft=0 ∨ !onlySendFull then
    { d.setPkb idx { pb with timeoutRef := 0, libReadyToSend := true } with
      txRing := d.txRing++[idx]
      txPkbInUse := none }
  else d.setPkb idx pb

def sendRound (left : Nat) (onlySendFull : Bool) : Option TxSocket :=
  match d.txPkbInUse with
  | some idx => some (d.fillPkb idx left onlySendFull)
  | none =>
    if d.waits params then none
    else
      let (d,idx) := d.openPkb
      some (d.fillPkb idx left onlySendFull)

def findTxPkbForSeq (seq : Seq) : Option Nat :=
  (List.range params.numTxPacketBuffers).find? fun i =>
    (d.txPacketBuffers i).libInUse ∧ (d.txPacketBuffers i).sequenceNumber=seq

def updateRemoteRwndEdge (seq recv : Seq) : TxSocket :=
  if (seq+recv-d.remoteRwndEdge).toNat≤ndpMaxSeqDiff then { d with remoteRwndEdge := seq+recv }
  else d

def slide : Nat → TxSocket → Option TxSocket
  | 0, _ => none
  | fuel+1, d =>
    let index := d.txWndRing.producerIndex
    if d.txWndRing.getElementAt index then
      slide fuel
        { d with
          txWndRing := (d.txWndRing.setElementAt index false).producerAdvance 1
          txFirstNotAck := d.txFirstNotAck+1 }
    else some d

def recordAck (dSeq : Seq) (pkbIdx : Nat) : Option TxSocket :=
  let d := d.resetTxPacketBuffer params pkbIdx
  let ring := d.txWndRing
  slide (params.numTxPacketBuffers+1)
    { d with txWndRing := ring.setElementAtWrapped (ring.producerIndex+dSeq.toNat) true }

def checkAck (isAck : Bool) (aSeq recvWindow : Seq) : Option TxSocket :=
  let dSeq := aSeq-d.txFirstNotAck
  if dSeq.toNat > ndpMaxSeqDiff then some (if isAck then d.updateRemoteRwndEdge aSeq recvWindow else d)
  else if (aSeq-d.txNextSeqNumber).toNat≤ndpMaxSeqDiff then some d
  else
    let pkbIdx := d.findTxPkbForSeq params aSeq
    if isAck then
      let d := d.updateRemoteRwndEdge aSeq recvWindow
      match pkbIdx with
      | none => some d
      | some idx => d.recordAck params dSeq idx
    else
      match pkbIdx with
      | none => some d
      | some idx => some (d.setPkb idx { d.txPacketBuffers idx with timeoutRef := 0 })
end TxSocket

/-- A sender, with the number of packets that it has opened and those of them, by their position,
for which an ACK has come. -/
structure TxSystem where
  sock : TxSocket
  opened : Nat
  acked : Finset Nat

inductive TxAction where
  | sendRound (left : Nat) (onlySendFull : Bool)
  | checkAck (isAck : Bool) (aSeq recvWindow : Seq)
namespace TxSystem
variable (params : TxParams)
def init (sendIsn : Seq) (pkbs : Nat → TxPkb) : TxSystem := ⟨.init params sendIsn pkbs,0,∅⟩
def position (s : TxSystem) (seq : Seq) : Nat := (seq-s.sock.sendIsn).toNat

def step (s : TxSystem) : TxAction → Option TxSystem
  | .sendRound left onlySendFull => do
    let sock ← s.sock.sendRound params left onlySendFull
    return { s with
      sock := sock
      opened := if s.sock.txPkbInUse.isNone then s.opened+1 else s.opened }
  | .checkAck isAck aSeq recvWindow => do
    let sock ← s.sock.checkAck params isAck aSeq recvWindow
    return { s with
      sock := sock
      acked := if isAck ∧ s.position aSeq < s.opened then insert (s.position aSeq) s.acked
        else s.acked }
end TxSystem
end P4Benchmarks.Ndp
