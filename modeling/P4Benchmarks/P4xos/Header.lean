import Mathlib.Algebra.GroupWithZero.Nat
import P4Benchmarks.Lib.Register
/-!
# Packet headers of P4xos

The header stack of `includes/header.p4`, restricted to the fields the switch programs read or
write.  An invalid header is `none`.
-/
namespace P4Benchmarks.P4xos
open Lib

def instanceCount : Nat := 65536
instance : NeZero instanceCount := ⟨by decide⟩

scoped instance neZero_three : NeZero 3 := ⟨by decide⟩

def paxos1A : BitVec 16 := 0
def paxos1B : BitVec 16 := 1
def paxos2A : BitVec 16 := 2
def paxos2B : BitVec 16 := 3

structure Ethernet where
  (dstAddr srcAddr : BitVec 48)
deriving DecidableEq

structure Arp where
  op : BitVec 16
  sha : BitVec 48
  spa : BitVec 32
  tha : BitVec 48
  tpa : BitVec 32
deriving DecidableEq

structure Ipv4 where
  (srcAddr dstAddr : BitVec 32)
deriving DecidableEq

structure Icmp where
  icmpType : BitVec 8
  hdrChecksum : BitVec 16
deriving DecidableEq

structure Udp where
  dstPort : BitVec 16
deriving DecidableEq

structure Paxos where
  msgtype : BitVec 16
  inst : BitVec 32
  (rnd vrnd acptid : BitVec 16)
  paxoslen : BitVec 32
  paxosval : BitVec 256
deriving DecidableEq

structure Headers where
  ethernet : Ethernet
  arp : Option Arp
  ipv4 : Option Ipv4
  icmp : Option Icmp
  udp : Option Udp
  paxos : Option Paxos
deriving DecidableEq

structure StandardMetadata where
  (ingressPort egressSpec : BitVec 9)
deriving DecidableEq

def dropPort : BitVec 9 := 511
variable (std : StandardMetadata)
def markToDrop : StandardMetadata := { std with egressSpec := dropPort }
def StandardMetadata.arriving (port : BitVec 9) : StandardMetadata := { ingressPort := port, egressSpec := 0 }
def StandardMetadata.leaves : Bool := std.egressSpec≠dropPort

@[local simp] def Headers.Carries (hdr : Headers) (p : Paxos → Prop) : Prop := ∃ pax, hdr.paxos=some pax ∧ p pax
instance (hdr : Headers) (p : Paxos → Prop) [DecidablePred p] : Decidable (hdr.Carries p) :=
  match h : hdr.paxos with
  | none => .isFalse (by simp [h])
  | some pax => decidable_of_iff (p pax) (by simp [h])
end P4Benchmarks.P4xos
