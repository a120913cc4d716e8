import Mathlib.Algebra.Order.BigOperators.Group.Finset
/-!
# Multicast by splitting the set of targets

Each copy of a message has a set of targets; a node takes out those that have the same next hop and
sends a copy for them there.
-/
namespace P4Benchmarks.Lib
open Multiset Finset
variable {V : Type*} [DecidableEq V]
/-- Next hops, which are closer to the target than the node itself. -/
structure Routing (V : Type*) where
  next : V → V → Option V
  dist : V → V → Nat
  closer : ∀ u v w, next u v=some w → dist w v<dist u v
namespace Multicast
structure Copy (V : Type*) where
  node : V
  targets : Finset V

structure Config (V : Type*) where
  copies : Multiset (Copy V)
  delivered : Multiset V
variable (R : Routing V) (u w : V) (targets : Finset V)
def behind : Finset V := targets.filter (R.next u · = some w)

/-- One copy is split, delivered or, without targets, discarded. -/
inductive Step (R : Routing V) : Config V → Config V → Prop
  | forward {u d w : V} {targets : Finset V} {copies : Multiset (Copy V)} {delivered : Multiset V}
      (hd : d ∈ targets) (hw : R.next u d=some w) :
      Step R ⟨⟨u,targets⟩ ::ₘ copies,delivered⟩
        ⟨⟨u,targets \ behind R u w targets⟩ ::ₘ ⟨w,behind R u w targets⟩ ::ₘ copies,delivered⟩
  | deliver {u : V} {targets : Finset V} {copies : Multiset (Copy V)} {delivered : Multiset V}
      (hu : u ∈ targets) :
      Step R ⟨⟨u,targets⟩ ::ₘ copies,delivered⟩ ⟨⟨u,targets.erase u⟩ ::ₘ copies,u ::ₘ delivered⟩
  | discard {u : V} {copies : Multiset (Copy V)} {delivered : Multiset V} :
      Step R ⟨⟨u,∅⟩ ::ₘ copies,delivered⟩ ⟨copies,delivered⟩

def Config.served (c : Config V) : Multiset V := c.delivered+(c.copies.map fun copy => copy.targets.val).sum
theorem behind_subset : behind R u w targets ⊆ targets := Finset.filter_subset _ _

theorem val_sdiff_behind : (targets \ behind R u w targets).val+(behind R u w targets).val=targets.val := by
  rw [add_comm,← disjUnion_val _ _ disjoint_sdiff,disjUnion_eq_union,
    union_sdiff_of_subset (behind_subset R u w targets)]
variable {c d : Config V}
theorem Step.served_eq {R : Routing V} (h : Step R c d) : d.served=c.served := by
  cases h with
  | @forward u d w targets copies delivered =>
    simp only [Config.served,Multiset.map_cons,Multiset.sum_cons]
    rw [← val_sdiff_behind R u w targets,add_assoc]
  | @deliver u targets copies delivered hu =>
    have hval : u ::ₘ (targets.erase u).val=targets.val := by rw [erase_val,cons_erase hu]
    simp only [Config.served,Multiset.map_cons,Multiset.sum_cons]
    rw [← hval,cons_add,cons_add,add_cons]
  | discard => simp [Config.served]

def Copy.work (copy : Copy V) : Nat := 1 + ∑ v ∈ copy.targets, (2*R.dist copy.node v+1)
def Config.work (R : Routing V) (c : Config V) : Nat := (c.copies.map (Copy.work R)).sum

theorem work_split {u d w : V} {targets : Finset V} (hd : d ∈ targets) (hw : R.next u d=some w) :
    Copy.work R ⟨u,targets \ behind R u w targets⟩+Copy.work R ⟨w,behind R u w targets⟩ < Copy.work R ⟨u,targets⟩ := by
  have hsplit := sum_sdiff (behind_subset R u w targets) (f := fun v => 2*R.dist u v+1)
  have hcloser : ∑ v ∈ behind R u w targets, (2*R.dist w v+1+2) ≤ ∑ v ∈ behind R u w targets, (2*R.dist u v+1) := by
    apply sum_le_sum
    intro v hv
    have hlt := R.closer u v w (Finset.mem_filter.mp hv).2
    omega
  have hpos : 0<(behind R u w targets).card := Finset.card_pos.mpr ⟨d,Finset.mem_filter.mpr ⟨hd,hw⟩⟩
  rw [sum_add_distrib,sum_const_nat fun _ _ => rfl] at hcloser
  simp only [Copy.work]
  omega

theorem Step.work_lt {R : Routing V} (h : Step R c d) : d.work R < c.work R := by
  cases h with
  | @forward u d w targets copies delivered hd hw =>
    have hsplit := work_split R hd hw
    simp only [Config.work,Multiset.map_cons,Multiset.sum_cons]
    omega
  | @deliver u targets copies delivered hu =>
    have herase := sum_erase_add targets (fun v => 2*R.dist u v+1) hu
    simp only [Config.work,Multiset.map_cons,Multiset.sum_cons,Copy.work]
    omega
  | discard =>
    simp only [Config.work,Multiset.map_cons,Multiset.sum_cons,Copy.work]
    omega

theorem served_eq_of_steps {R : Routing V} (h : Relation.TransGen (Step R) c d) : d.served=c.served := by
  induction h with
  | single hstep => exact hstep.served_eq
  | tail _ hstep ih => rw [hstep.served_eq,ih]

theorem work_lt_of_steps {R : Routing V} (h : Relation.TransGen (Step R) c d) : d.work R < c.work R := by
  induction h with
  | single hstep => exact hstep.work_lt
  | tail _ hstep ih => exact hstep.work_lt.trans ih
omit [DecidableEq V] in
theorem delivered_of_no_copies {c : Config V} (h : c.copies=0) : c.delivered=c.served := by
  rw [Config.served,h]
  simp
end Multicast
end P4Benchmarks.Lib
