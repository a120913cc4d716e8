import Mathlib.Logic.Function.Basic
import Mathlib.Tactic.SplitIfs
/-!
# Weighted majority vote

One candidate is kept for a stream of weighted votes.  A vote for the candidate adds to its margin, a
vote for another one is taken off, and takes over when the margin is used up.
-/
namespace P4Benchmarks.Lib
open Function
variable {κ : Type*} [DecidableEq κ]
structure Ballot (κ : Type*) where
  cand : κ
  (margin sum : Int)
namespace Ballot
def vote (b : Ballot κ) (k : κ) (v : Int) : Ballot κ :=
  if k=b.cand then ⟨b.cand,b.margin+v,b.sum+v⟩
  else if b.margin<v then ⟨k,v-b.margin,b.sum+v⟩
  else ⟨b.cand,b.margin-v,b.sum+v⟩

/-- `f` are the weights of the votes for each candidate.  The votes outside of the margin can be
paired so that the votes of a pair are for different candidates. -/
structure Counts (f : κ → Int) (b : Ballot κ) : Prop where
  nonneg : ∀ x, 0≤f x
  margin_nonneg : 0≤b.margin
  margin_le : b.margin≤f b.cand
  cand_le : 2*f b.cand≤b.sum+b.margin
  other_le : ∀ x, x≠b.cand → 2*f x≤b.sum-b.margin
variable {f : κ → Int} {b : Ballot κ} {k : κ} {v : Int}
theorem sum_vote (b : Ballot κ) (k : κ) (v : Int) : (b.vote k v).sum=b.sum+v := by
  rw [vote]
  split_ifs <;> rfl

theorem cand_vote (b : Ballot κ) (k : κ) (v : Int) : (b.vote k v).cand=b.cand ∨ (b.vote k v).cand=k := by
  rw [vote]
  split_ifs
  · exact .inl rfl
  · exact .inr rfl
  · exact .inl rfl

theorem counts_first (hzero : ∀ x, f x=0) (hv : 0≤v) : Counts (update f k v) ⟨k,v,v⟩ where
  nonneg x := by
    by_cases hx : x=k
    · rwa [hx,update_self]
    · have hother : update f k v x=0 := by rw [update_of_ne hx,hzero]
      exact Int.le_of_eq hother.symm
  margin_nonneg := hv
  margin_le := Int.le_of_eq (update_self k v f).symm
  cand_le := by
    dsimp only
    rw [update_self]
    omega
  other_le x hx := by
    dsimp only at hx ⊢
    rw [update_of_ne hx,hzero]
    omega
omit [DecidableEq κ] in
theorem Counts.margin_le_sum (h : b.Counts f) : b.margin≤b.sum := by
  have hle := h.margin_le
  have hcand := h.cand_le
  omega

theorem Counts.vote (h : b.Counts f) (hv : 0≤v) : (b.vote k v).Counts (update f k (f k+v)) := by
  have hmargin := h.margin_nonneg
  have hle := h.margin_le
  have hcand := h.cand_le
  have hpos := h.nonneg k
  have hnonneg (x : κ) : 0≤update f k (f k+v) x := by
    by_cases hx : x=k
    · rw [hx,update_self]
      omega
    · rw [update_of_ne hx]
      exact h.nonneg x
  rw [Ballot.vote]
  split_ifs with hk htake
  · refine ⟨hnonneg,?_,?_,?_,fun x hx => ?_⟩ <;> dsimp only at *
    · omega
    · rw [hk,update_self]
      omega
    · rw [hk,update_self]
      omega
    · rw [update_of_ne (hk ▸ hx)]
      have := h.other_le x hx
      omega
  · have hother := h.other_le k hk
    refine ⟨hnonneg,?_,?_,?_,fun x hx => ?_⟩ <;> dsimp only at *
    · omega
    · rw [update_self]
      omega
    · rw [update_self]
      omega
    · rw [update_of_ne hx]
      by_cases hxc : x=b.cand
      · rw [hxc]
        omega
      · have := h.other_le x hxc
        omega
  · have hother := h.other_le k hk
    refine ⟨hnonneg,?_,?_,?_,fun x hx => ?_⟩ <;> dsimp only at *
    · omega
    · rw [update_of_ne (Ne.symm hk)]
      omega
    · rw [update_of_ne (Ne.symm hk)]
      omega
    · by_cases hxk : x=k
      · rw [hxk,update_self]
        omega
      · rw [update_of_ne hxk]
        have := h.other_le x hx
        omega
end Ballot
end P4Benchmarks.Lib
