import P4Benchmarks.IntSight.Flow
import P4Benchmarks.Lib.Execution
/-!
# A flow in a network of IntSight switches

The packets of one flow stay in order between two switches, and each may be lost.  Packets of other
flows pass all switches at any time.
-/
namespace P4Benchmarks.IntSight
open Lib

structure Flow (V : Type) where
  (src dst : BitVec 32)
  (entry exit : V)
  id : Fin regwid

structure Stamp where
  timestamp : BitVec 48
  length : BitVec 32
deriving DecidableEq

def Stamp.epoch (st : Stamp) : BitVec 32 := epochOf st.timestamp

/-- A packet of the flow on its way: its position among the packets of the flow, what the ingress
node saw of it, and its present form. -/
structure InFlight where
  index : Nat
  stamp : Stamp
  frame : Frame

structure Reception where
  index : Nat
  stamp : Stamp
  telemetry : Telemetry
deriving DecidableEq

structure State (V : Type) where
  regs : V → Registers
  inFlight : List InFlight
  sent : List Stamp
  received : List Reception
  reports : List Report

def State.start (V : Type) : State V := ⟨fun _ => {},[],[],[],[]⟩

inductive Event (V : Type) where
  | enter (f : Frame) (a : Passage)
  | transit (n : Nat) (v : V) (a : Passage)
  | lose (n : Nat)
  | exit (a : Passage)
  | other (v : V) (f : Frame) (a : Passage)
section Run
variable {V : Type} [DecidableEq V] (net : V → Tables) (flow : Flow V) (s : State V)
def State.visit (v : V) (o : Outcome) (index : Nat) (stamp : Stamp) : State V :=
  { s with
    regs := Function.update s.regs v o.regs
    received := s.received++(o.received.map (Reception.mk index stamp)).toList
    reports := s.reports++o.report.toList }

def step : Event V → Option (State V)
  | .enter f a =>
    let o := pass (net flow.entry) (s.regs flow.entry) f a
    let stamp := ⟨a.ingressGlobalTimestamp,f.length⟩
    some { s.visit flow.entry o s.sent.length stamp with
      sent := s.sent++[stamp]
      inFlight := s.inFlight ++ if flow.entry=flow.exit then []
        else (o.frame.map (InFlight.mk s.sent.length stamp)).toList }
  | .transit n v a =>
    match s.inFlight[n]? with
    | none => none
    | some p =>
      let o := pass (net v) (s.regs v) p.frame a
      some { s.visit v o p.index p.stamp with
        inFlight := match o.frame with
          | some g => s.inFlight.set n { p with frame := g }
          | none => s.inFlight.eraseIdx n }
  | .lose n => some { s with inFlight := s.inFlight.eraseIdx n }
  | .exit a =>
    match s.inFlight with
    | [] => none
    | p::rest =>
      let o := pass (net flow.exit) (s.regs flow.exit) p.frame a
      some { s.visit flow.exit o p.index p.stamp with inFlight := rest }
  | .other v f a => some { s with regs := Function.update s.regs v (pass (net v) (s.regs v) f a).regs }

/-- The flow has one path: both ends know it by its id, the last switch forwards it to a host, and
the first one, unless it is also the last, to another switch. -/
structure OnePath : Prop where
  entry_id : flowIDApply (net flow.entry) ⟨0,0,0,flow.src,flow.dst⟩=flowAt flow.id
  exit_id : flowIDApply (net flow.exit) ⟨0,0,0,flow.src,flow.dst⟩=flowAt flow.id
  exit_route : ∃ port, (net flow.exit).ipv4Lpm flow.dst=.ipv4Forward port ∧ port≠0 ∧ port≤2
  entry_route : flow.entry≠flow.exit → ∃ port, (net flow.entry).ipv4Lpm flow.dst=.ipv4Forward port ∧ ¬ port≤2

def forwardsInside (t : Tables) (dst : BitVec 32) : Bool :=
  match t.ipv4Lpm dst with
  | .ipv4Forward port => decide (¬ port≤2)
  | _ => false

/-- What the events of a run are about: packets of the flow come from a host, pass switches inside
the network and leave at the last switch; no other packet is monitored under the id of the flow at
one of its ends. -/
def Admissible (_ : State V) : Event V → Prop
  | .enter f a => f.etherType=etherTypeIpv4 ∧ f.ipv4.srcAddr=flow.src ∧
      f.ipv4.dstAddr=flow.dst ∧ (parse f).report=none ∧ a.ingressPort≤2
  | .transit _ v a => ¬ a.ingressPort≤2 ∧ forwardsInside (net v) flow.dst
  | .lose _ => True
  | .exit a => ¬ a.ingressPort≤2
  | .other v f _ => v=flow.entry ∨ v=flow.exit → monitors (net v) flow.id f=false

/-- No host sends a packet of the flow with the protocol number of the telemetry header, and the
clock of the ingress node does not go back. -/
def Clean : Event V → Prop
  | .enter f a => f.ipv4.protocol≠protocolTelemetry ∧
      ∀ st ∈ s.sent, st.timestamp≤a.ingressGlobalTimestamp
  | _ => True

instance Admissible.decidable (s : State V) : ∀ e, Decidable (Admissible net flow s e)
  | .enter _ _ => inferInstanceAs (Decidable (_ ∧ _ ∧ _ ∧ _ ∧ _))
  | .transit _ _ _ => inferInstanceAs (Decidable (_ ∧ _))
  | .lose _ => .isTrue trivial
  | .exit _ => inferInstanceAs (Decidable (¬ _))
  | .other _ _ _ => inferInstanceAs (Decidable (_ → _))

instance Clean.decidable (s : State V) : ∀ e, Decidable (Clean s e)
  | .enter _ _ => inferInstanceAs (Decidable (_ ∧ _))
  | .transit _ _ _ | .lose _ | .exit _ | .other _ _ _ => .isTrue trivial
end Run
section Exact
variable {V : Type} [DecidableEq V] (net : V → Tables) (flow : Flow V) (s : State V)

def State.receivedIn (e : BitVec 32) : List Reception := s.received.filter fun r => r.stamp.epoch=e

def State.Lost (k : Nat) : Prop :=
  k < s.sent.length ∧ k ∉ s.received.map (·.index) ∧ k ∉ s.inFlight.map (·.index)

instance State.lostDecidable (k : Nat) : Decidable (s.Lost k) := inferInstanceAs (Decidable (_ ∧ _ ∧ _))

def State.lostBeforeLast (e : BitVec 32) : List Nat :=
  match (s.receivedIn e).getLast? with
  | none => []
  | some last => (List.range last.index).filter fun k => (s.sent[k]?.map Stamp.epoch)=some e ∧ s.Lost k

structure Exact (r : Report) : Prop where
  egressPackets : r.egressPackets=.ofNat 32 (s.receivedIn r.epoch).length
  egressBytes : r.egressBytes = .ofNat 32 ((s.receivedIn r.epoch).map (·.stamp.length.toNat)).sum
  drops : r.drops=.ofNat 32 (s.lostBeforeLast r.epoch).length
  highDelays : r.highDelays=.ofNat 32 ((s.receivedIn r.epoch).countP fun x =>
    highE2eDelay (net flow.exit) (flowAt flow.id) x.telemetry.e2eDelay)
  contentionPoints : r.contentionPoints =
    (s.receivedIn r.epoch).foldl (fun points x => points|||x.telemetry.contentionPoints) 0
end Exact
end P4Benchmarks.IntSight
