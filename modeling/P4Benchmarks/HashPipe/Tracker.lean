import Mathlib.Data.BitVec
import P4Benchmarks.Lib.LinearSketch
/-!
# The heavy hitter tracker

`hh_tracker.p4`: a packet enters its source in the first stage, and what it displaces moves on to
the second.
-/
namespace P4Benchmarks.HashPipe
open Lib Function
abbrev Addr := BitVec 32

structure Slot where
  (key count : BitVec 32)
  valid : Bool
  deriving DecidableEq

abbrev Stage := Fin 32 → Slot

structure Carried where
  (key count : BitVec 32)

@[local simp] def Slot.doStage1 (x : Slot) (srcAddr : Addr) : Slot × Carried :=
  let keyInTable := if x.valid=false then srcAddr else x.key
  let diff := if x.valid=false then 0 else keyInTable-srcAddr
  (⟨srcAddr,if diff=0 then x.count+1 else 1,true⟩,⟨if diff=0 then 0 else keyInTable,if diff=0 then 0 else x.count⟩)

def Slot.doStage2 (x : Slot) (c : Carried) : Slot :=
  let keyInTable := if x.valid=false then c.key else x.key
  let diff := if x.valid=false then 0 else keyInTable-c.key
  ⟨if diff=0 then keyInTable else if x.count < c.count then c.key else keyInTable,
    if diff=0 then x.count+c.count else if x.count < c.count then c.count else x.count,
    if x.valid=false then c.key≠0 else true⟩

structure Tracker where
  (stage1 stage2 : Stage)
variable (hash1 hash2 : Addr → Fin 32) (s : Tracker)
def Tracker.ingress (srcAddr : Addr) : Tracker :=
  let (x,c) := (s.stage1 (hash1 srcAddr)).doStage1 srcAddr
  ⟨update s.stage1 (hash1 srcAddr) x,update s.stage2 (hash2 c.key) ((s.stage2 (hash2 c.key)).doStage2 c)⟩

def Tracker.empty : Tracker := ⟨fun _ => ⟨0,0,false⟩,fun _ => ⟨0,0,false⟩⟩
def Slot.held (k : Addr) (x : Slot) : Nat := if x.valid ∧ x.key=k then x.count.toNat else 0
def Tracker.counted (k : Addr) : Nat := ∑ i, (s.stage1 i).held k+∑ i, (s.stage2 i).held k
def Carried.held (k : Addr) (c : Carried) : Nat := if c.key=k then c.count.toNat else 0

theorem sum_held_update (f : Stage) (i : Fin 32) (x : Slot) (k : Addr) :
    ∑ j, (update f i x j).held k+(f i).held k=∑ j, (f j).held k+x.held k := by
  simp only [Function.apply_update (fun _ => Slot.held k)]
  exact sum_update_add (Finset.mem_univ i) (fun j => (f j).held k) (x.held k)

structure Slot.Clean (x : Slot) : Prop where
  empty : x.valid=false → x.count=0
  named : x.valid → x.key≠0

theorem doStage1_held {x : Slot} {src : Addr} (hx : x.Clean) (hsrc : src≠0) (k : Addr) :
    (x.doStage1 src).1.held k+(x.doStage1 src).2.held k≤x.held k+(if src=k then 1 else 0) ∧
      (x.doStage1 src).1.Clean ∧ ((x.doStage1 src).2.key=0 → (x.doStage1 src).2.count=0) := by
  have hdiff : x.key-src=0 ↔ x.key=src := sub_eq_zero
  have hone : (x.count+1).toNat≤x.count.toNat+1 := Nat.mod_le _ _
  refine ⟨?_,⟨by simp,fun _ => hsrc⟩,?_⟩ <;> cases hv : x.valid
  · simp [Slot.held,Carried.held,hv,hx.empty hv]
  · simp only [Slot.doStage1,Slot.held,Carried.held,hv]
    grind
  · simp [hv]
  · have := hx.named hv
    simp only [Slot.doStage1,hv]
    grind

theorem doStage2_held {x : Slot} {c : Carried} (hx : x.valid=false → x.count=0) (hc : c.key=0 → c.count=0) (k : Addr) :
    (x.doStage2 c).held k≤x.held k+c.held k ∧ ((x.doStage2 c).valid=false → (x.doStage2 c).count=0) := by
  have hdiff : x.key-c.key=0 ↔ x.key=c.key := sub_eq_zero
  have hsum : (x.count+c.count).toNat≤x.count.toNat+c.count.toNat := Nat.mod_le _ _
  cases hv : x.valid
  · simp only [Slot.doStage2,Slot.held,Carried.held,hv,hx hv]
    grind
  · simp only [Slot.doStage2,Slot.held,Carried.held,hv]
    grind

structure Tracker.Sound (s : Tracker) (seen : List Addr) : Prop where
  clean : ∀ i, (s.stage1 i).Clean
  empty : ∀ i, (s.stage2 i).valid=false → (s.stage2 i).count=0
  counted_le : ∀ k, s.counted k ≤ seen.count k

theorem Tracker.Sound.ingress {s : Tracker} {seen : List Addr} (hs : s.Sound seen) {src : Addr}
    (hsrc : src≠0) : (s.ingress hash1 hash2 src).Sound (seen++[src]) := by
  have h1 := doStage1_held (hs.clean (hash1 src)) hsrc
  unfold Tracker.ingress
  generalize (s.stage1 (hash1 src)).doStage1 src=xc at h1 ⊢
  obtain ⟨x,c⟩ := xc
  have h2 := doStage2_held (hs.empty (hash2 c.key)) (h1 0).2.2
  refine ⟨fun i => ?_,fun i => ?_,fun k => ?_⟩
  · by_cases hi : i=hash1 src
    · simpa [hi] using (h1 0).2.1
    · simpa [hi] using hs.clean i
  · by_cases hi : i=hash2 c.key
    · simpa [hi] using (h2 0).2
    · simpa [hi] using hs.empty i
  · have hsum1 := sum_held_update s.stage1 (hash1 src) x k
    have hsum2 := sum_held_update s.stage2 (hash2 c.key) ((s.stage2 (hash2 c.key)).doStage2 c) k
    have hcount : (seen++[src]).count k=seen.count k+(if src=k then 1 else 0) := by simp [List.count_singleton]
    have hle := hs.counted_le k
    have hle1 := (h1 k).1
    have hle2 := (h2 k).1
    simp only [Tracker.counted,hcount] at hle hle1 hle2 ⊢
    omega

/-- Without packets from the address 0. -/
theorem Tracker.never_overcounts (packets : List Addr) (hnonzero : 0 ∉ packets) (k : Addr) :
    (packets.foldl (Tracker.ingress hash1 hash2) .empty).counted k≤packets.count k := by
  suffices h : (packets.foldl (Tracker.ingress hash1 hash2) .empty).Sound packets from h.counted_le k
  induction packets using List.reverseRecOn with
  | nil => exact ⟨fun _ => ⟨fun _ => rfl,by simp [Tracker.empty]⟩,fun _ _ => rfl,by
      simp [Tracker.counted,Tracker.empty,Slot.held]⟩
  | append_singleton packets src ih =>
    rw [List.foldl_append]
    exact (ih fun h => hnonzero (List.mem_append_left _ h)).ingress hash1 hash2 fun h => hnonzero (by simp [h])

theorem Tracker.counts_twoSources : (0 : Addr) ∉ [1,2,1] ∧
    ([1,2,1].foldl (Tracker.ingress (fun _ => 0) fun _ => 0) .empty).counted 1≤2 :=
  ⟨by decide,Tracker.never_overcounts _ _ [1,2,1] (by decide) 1⟩

/-- The count of address 0 stays behind in a slot that is not valid. -/
theorem Tracker.overcounts_after_zero : ([0,1,2] : List Addr).count 1 <
      ([0,1,2].foldl (Tracker.ingress (fun _ => 0) fun _ => 0) .empty).counted 1 := by
  decide
end P4Benchmarks.HashPipe
