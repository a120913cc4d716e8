import P4Benchmarks.Lib.Execution
import P4Benchmarks.P4xos.Acceptor
import P4Benchmarks.P4xos.Learner
/-!
# A P4xos deployment

The network may lose, duplicate and reorder: every packet ever sent stays in `net`, and an action
picks any of them.
-/
namespace P4Benchmarks.P4xos
open Lib
structure Proposer where
  proposal : BitVec 32 → BitVec 16 → Option (BitVec 256)

/-- The fixed part of a deployment.  Each round number belongs to one proposer, and the three
acceptors have the identifiers 0, 1 and 2. -/
structure Deployment (P : Type) where
  owner : BitVec 16 → P
  acceptor : Fin 3 → Acceptor.Config
  acceptorID_eq : ∀ i, (acceptor i).acceptorID=.ofNat 16 i
  transport : Learner.Transport

structure State (P : Type) where
  acceptors : Fin 3 → Acceptor.Registers
  learner : Learner.Registers
  proposers : P → Proposer
  net : List Headers
  delivered : List Headers

def State.init {P : Type} (d : Deployment P) : State P where
  acceptors := fun i => Acceptor.boot (d.acceptor i)
  learner := Learner.boot
  proposers := fun _ => ⟨fun _ _ => none⟩
  net := []
  delivered := []

/-- What can happen next.  The switch actions name the packet, the port it arrives on and the
values of reads outside the register arrays. -/
inductive Action (P : Type) where
  | send1a (p : P) (hdr : Headers)
  | send2a (p : P) (hdr reply reply' : Headers)
  | acceptor (i : Fin 3) (hdr : Headers) (port : BitVec 9) (junk : Unspecified)
  | learner (hdr : Headers) (port : BitVec 9) (junk : Unspecified)

def May1a {P : Type} (d : Deployment P) (p : P) (m : Paxos) : Prop :=
  m.msgtype=paxos1A ∧ m.rnd≠0 ∧ d.owner m.rnd=p

def Answers (b m : Paxos) : Prop := b.msgtype=paxos1B ∧ b.inst=m.inst ∧ b.rnd=m.rnd

def PicksHighest (b b' : Paxos) (v : BitVec 256) : Prop :=
  (b.vrnd=0 ∧ b'.vrnd=0) ∨ (b.vrnd≠0 ∧ b'.vrnd≤b.vrnd ∧ v=b.paxosval) ∨ (b'.vrnd≠0 ∧ b.vrnd≤b'.vrnd ∧ v=b'.paxosval)

/-- `m` is a 2A that `p` may send after the replies `b` and `b'` of two acceptors.  A proposer
never proposes a second value in one of its rounds. -/
def May2a {P : Type} (d : Deployment P) (p : P) (self : Proposer) (m b b' : Paxos) : Prop :=
  m.msgtype=paxos2A ∧ m.rnd≠0 ∧ d.owner m.rnd=p ∧ Answers b m ∧ Answers b' m ∧
    b.acptid≠b'.acptid ∧ PicksHighest b b' m.paxosval ∧
    (self.proposal m.inst m.rnd=none ∨ self.proposal m.inst m.rnd=some m.paxosval)

instance {P : Type} [DecidableEq P] (d : Deployment P) (p : P) : DecidablePred (May1a d p) :=
  fun _ => inferInstanceAs (Decidable (_ ∧ _))

instance (b m : Paxos) : Decidable (Answers b m) := inferInstanceAs (Decidable (_ ∧ _))

instance (b b' : Paxos) (v : BitVec 256) : Decidable (PicksHighest b b' v) :=
  inferInstanceAs (Decidable (_ ∨ _))

instance {P : Type} [DecidableEq P] (d : Deployment P) (p : P) (self : Proposer)
    (m b b' : Paxos) : Decidable (May2a d p self m b b') :=
  inferInstanceAs (Decidable (_ ∧ _))

def Proposer.record (self : Proposer) (m : Paxos) : Proposer :=
  ⟨fun inst rnd => if inst=m.inst ∧ rnd=m.rnd then some m.paxosval else self.proposal inst rnd⟩
variable {P : Type} [DecidableEq P]
def step (d : Deployment P) (s : State P) : Action P → Option (State P)
  | .send1a p hdr => if hdr.Carries (May1a d p) then some { s with net := hdr::s.net } else none
  | .send2a p hdr reply reply' =>
    match hdr.paxos, reply.paxos, reply'.paxos with
    | some m, some b, some b' =>
      if reply ∈ s.net ∧ reply' ∈ s.net ∧ May2a d p (s.proposers p) m b b' then
        some { s with
          proposers := Function.update s.proposers p ((s.proposers p).record m)
          net := hdr::s.net }
      else none
    | _, _, _ => none
  | .acceptor i hdr port junk =>
    if hdr ∈ s.net then
      let out := Acceptor.ingress junk (d.acceptor i) (s.acceptors i) hdr (.arriving port)
      some { s with
        acceptors := Function.update s.acceptors i out.1
        net := if out.2.2.leaves then out.2.1::s.net else s.net }
    else none
  | .learner hdr port junk =>
    if hdr ∈ s.net ∧ hdr.Carries (fun p => p.msgtype=paxos2B) then
      let out := Learner.ingress junk d.transport s.learner hdr (.arriving port)
      some { s with
        learner := out.regs
        delivered := if out.delivers then hdr::s.delivered else s.delivered }
    else none
variable (i : Fin instanceCount) (s : State P)
def DeliveredAgree : Prop :=
  ∀ hdr ∈ s.delivered, ∀ hdr' ∈ s.delivered, ∀ p p', hdr.paxos=some p → hdr'.paxos=some p' →
    p.inst.toNat=i → p'.inst.toNat=i → p.paxosval=p'.paxosval

/-- The learner would evaluate its quorum test on a packet of `i` that is older than the round it
has recorded, while the recorded votes form a quorum. -/
def StaleAtQuorum : Action P → Prop
  | .learner hdr _ _ => hdr.Carries fun p => p.inst.toNat=i ∧
      p.rnd < s.learner.registerRound i ∧ Learner.isQuorum (s.learner.registerHistory2B i)
  | _ => False
omit [DecidableEq P] in
instance (i : Fin instanceCount) (s : State P) : DecidablePred (StaleAtQuorum i s)
  | .learner _ _ _ => inferInstanceAs (Decidable (Headers.Carries _ _))
  | .send1a _ _ | .send2a _ _ _ _ | .acceptor _ _ _ _ => .isFalse id
end P4Benchmarks.P4xos
