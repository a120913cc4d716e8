import Mathlib.Algebra.GroupWithZero.Nat
import Mathlib.Order.Fin.Basic
import Mathlib.Data.List.Induction
/-!
# Queue bounds of SP-PIFO

`sp-pifo_p4_16.p4`: eight queues in strict priority stand for one queue that is sorted by rank.
-/
namespace P4Benchmarks.SpPifo
open Function List Fin
scoped instance neZero_eight : NeZero 8 := ⟨by decide⟩

structure Ipv4 where
  (tos ttl : BitVec 8)
  dstAddr : BitVec 32

structure Packet where
  (etherDst etherSrc : BitVec 48)
  ipv4 : Option Ipv4
  egressSpec : BitVec 9
  priority : Fin 8

inductive LpmAction where
  | ipv4Forward (dstAddr : BitVec 48) (port : BitVec 9)
  | drop
  | noAction

abbrev Bounds := Fin 8 → BitVec 32

/-- The tests of the queues that are left, and the queue of the packet with the bounds after it. -/
def enqueue (b : Bounds) (rank : BitVec 32) : List (Fin 8) → Fin 8 × Bounds
  | [] => (7,
    if b 7 > rank then
      -- the blocking reaction
      let cost := b 7-rank
      fun i => if i=7 then rank else b i-cost
    else update b 7 rank)
  | i::is => if b i ≤ rank then (i,update b i rank) else enqueue b rank is

def place (b : Bounds) (rank : BitVec 32) : Fin 8 × Bounds := enqueue b rank [0,1,2,3,4,5,6]
def dropPort : BitVec 9 := 511
variable (lpm : BitVec 32 → LpmAction)
def ipv4Lpm (p : Packet) (h : Ipv4) : Packet :=
  match lpm h.dstAddr with
  | .ipv4Forward dstAddr port =>
    { p with
      egressSpec := port, etherSrc := p.etherDst, etherDst := dstAddr
      ipv4 := some { h with ttl := h.ttl-1 } }
  | .drop => { p with egressSpec := dropPort }
  | .noAction => p
variable (b : Bounds)
def myIngress (p : Packet) : Bounds × Packet :=
  match p.ipv4 with
  | none => (b,p)
  | some h =>
    let r := place b (h.tos.setWidth 32)
    (r.2,ipv4Lpm lpm { p with priority := r.1 } h)

def run (ps : List Packet) : Bounds := ps.foldl (fun b p => (myIngress lpm b p).1) fun _ => 0
def Ordered : Prop := ∀ i j : Fin 8, i≤j → b j≤b i

/-- Queue `i` is the lowest one whose bound is at most the rank, or queue 7 if there is none. -/
def Fits (rank : BitVec 32) (i : Fin 8) : Prop := (∀ j < i, rank<b j) ∧ (b i ≤ rank ∨ i=7)
variable {b : Bounds} {rank : BitVec 32}
theorem enqueue_cases (is : List (Fin 8)) (hsorted : is.Pairwise (· < ·)) (hlt : ∀ i ∈ is, i<7)
    (htested : ∀ j<7, j ∉ is → rank<b j) :
    (∃ i, enqueue b rank is=(i,update b i rank) ∧ b i ≤ rank ∧ ∀ j < i, rank<b j) ∨
      enqueue b rank is=(7,fun i => if i=7 then rank else b i-(b 7-rank)) ∧ ∀ j, rank<b j := by
  induction is with
  | nil =>
    by_cases hblock : rank<b 7
    · refine .inr ⟨by simp [enqueue,hblock],fun j => ?_⟩
      obtain hj | rfl := (le_last j).lt_or_eq
      · exact htested j hj (by simp)
      · exact hblock
    · exact .inl ⟨7,by simp [enqueue,hblock],BitVec.not_lt.mp hblock,fun j hj => htested j hj (by simp)⟩
  | cons i is ih =>
    obtain ⟨hfirst,hsorted⟩ := pairwise_cons.mp hsorted
    have hi := hlt i mem_cons_self
    rw [enqueue]
    split_ifs with hle
    · refine .inl ⟨i,rfl,hle,fun j hj => htested j (hj.trans hi) fun hmem => ?_⟩
      obtain rfl | hmem := mem_cons.mp hmem
      · exact lt_irrefl j hj
      · exact lt_asymm hj (hfirst j hmem)
    · refine ih hsorted (fun k hk => hlt k (mem_cons_of_mem i hk)) fun j hj hmem => ?_
      by_cases hji : j=i
      · exact hji ▸ BitVec.not_le.mp hle
      · exact htested j hj (by simp [hji,hmem])

theorem Ordered.place (h : Ordered b) : Ordered (place b rank).2 ∧
    (rank<b 7 → ∀ i, b 7-rank≤b i) ∧ Fits b rank (SpPifo.place b rank).1 ∧
      (SpPifo.place b rank).2 (SpPifo.place b rank).1=rank := by
  have hcost : rank<b 7 → ∀ i, b 7-rank≤b i := by
    intro hblock i
    have := h i 7 (le_last i)
    bv_omega
  have hqueues : ∀ j : Fin 8, j<7 → j ∈ [0,1,2,3,4,5,6] := by decide
  have htested : ∀ j<7, j ∉ [0,1,2,3,4,5,6] → rank<b j := fun j hj hmem => absurd (hqueues j hj) hmem
  obtain ⟨i,heq,hle,hlow⟩ | ⟨heq,hall⟩ := enqueue_cases _ (by decide) (by decide) htested
  · rw [SpPifo.place,heq]
    refine ⟨fun j k hjk => ?_,hcost,⟨hlow,.inl hle⟩,update_self ..⟩
    have hjk' := h j k hjk
    by_cases hk : k=i <;> by_cases hj : j=i
    · simp [hk,hj]
    · have := hlow j (lt_of_le_of_ne (hk ▸ hjk) hj)
      simp [hk,hj,BitVec.le_of_lt this]
    · subst hj
      simpa [hk] using BitVec.le_trans hjk' hle
    · simpa [hk,hj] using hjk'
  · rw [SpPifo.place,heq]
    refine ⟨fun j k hjk => ?_,hcost,⟨fun j _ => hall j,.inr rfl⟩,rfl⟩
    have hjk' := h j k hjk
    have hj7 := h j 7 (le_last j)
    have hk7 := h k 7 (le_last k)
    have hblock := hall 7
    by_cases hj : j=7
    · have hk : k=7 := le_antisymm (le_last k) (hj ▸ hjk)
      simp [hk,hj]
    · dsimp only
      split_ifs
      · bv_omega
      · bv_omega

theorem ordered_run (ps : List Packet) : Ordered (run lpm ps) := by
  induction ps using reverseRecOn with
  | nil => exact fun _ _ _ => BitVec.le_refl _
  | append_singleton ps p ih =>
    rw [run,foldl_append,foldl_cons,foldl_nil,← run,myIngress]
    split
    · exact ih
    · exact ih.place.1

/-- The bounds are always ordered.  A packet goes to the first queue that fits, which gets its rank
as bound, and the cost of a blocking is not larger than any bound. -/
theorem bounds_ordered (lpm : BitVec 32 → LpmAction) (ps : List Packet) (p : Packet) (h : Ipv4) : let b := run lpm ps
    let rank := h.tos.setWidth 32
    let r := myIngress lpm b { p with ipv4 := some h }
    Ordered b ∧ Ordered r.1 ∧ (rank<b 7 → ∀ i, b 7-rank≤b i) ∧ Fits b rank r.2.priority ∧ r.1 r.2.priority=rank := by
  intro b rank r
  have hb : Ordered b := ordered_run lpm ps
  have hpriority : r.2.priority=(place b rank).1 := by
    dsimp only [r,myIngress,ipv4Lpm]
    split <;> rfl
  rw [hpriority]
  exact ⟨hb,hb.place⟩
end P4Benchmarks.SpPifo
