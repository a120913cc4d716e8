import Mathlib.Algebra.BigOperators.Group.Finset.Piecewise
/-! # Linear sketches -/
namespace P4Benchmarks.Lib
open List Function
variable {ι G α σ : Type*}
theorem sum_update_add [DecidableEq ι] [AddCommMonoid G] {s : Finset ι} {i : ι} (hi : i ∈ s)
    (f : ι → G) (x : G) : ∑ j ∈ s, update f i x j+f i=∑ j ∈ s, f j+x := by
  rw [Finset.sum_update_of_mem hi,Finset.sum_eq_sum_sdiff_singleton_add hi f,add_assoc,add_comm]

def bump [DecidableEq ι] [Add G] (m : ι → G) (cells : List ι) (e : G) : ι → G :=
  cells.foldl (fun m i => update m i (m i+e)) m

theorem bump_apply [DecidableEq ι] [AddMonoid G] (m : ι → G) (cells : List ι) (e : G) (i : ι) :
    bump m cells e i=m i+cells.count i • e := by
  induction cells generalizing m with
  | nil => simp [bump]
  | cons c cells ih =>
    change bump (update m c (m c+e)) cells e i=_
    rw [ih]
    by_cases hc : c=i
    · subst hc
      rw [Function.update_self,count_cons_self,succ_nsmul',add_assoc]
    · rw [Function.update_of_ne (Ne.symm hc),count_cons_of_ne hc]

theorem foldl_eq_add_sum [AddMonoid G] {step : σ → α → σ} (read : σ → G) {share : α → G} {l : List α}
    (h : ∀ a ∈ l, ∀ s, read (step s a)=read s+share a) (s : σ) : read (l.foldl step s)=read s+(l.map share).sum := by
  induction l generalizing s with
  | nil => simp
  | cons a l ih =>
    have hrest : ∀ b ∈ l, ∀ s, read (step s b)=read s+share b := fun b hb => h b (mem_cons_of_mem a hb)
    rw [foldl_cons,ih hrest,h a mem_cons_self,map_cons,sum_cons,add_assoc]

theorem sum_map_filterMap [AddMonoid G] {β : Type*} (f : α → Option β) (share : β → G) (l : List α) :
    ((l.filterMap f).map share).sum=(l.map fun a => (f a).elim 0 share).sum := by
  induction l with
  | nil => rfl
  | cons a l ih => cases hf : f a <;> simp [hf,ih]

theorem sum_sub_sum_of_perm [AddCommGroup G] {sent delivered lost : List α} (share : α → G)
    (h : sent.Perm (delivered++lost)) : (sent.map share).sum-(delivered.map share).sum=(lost.map share).sum := by
  rw [(h.map share).sum_eq,map_append,sum_append,add_sub_cancel_left]
end P4Benchmarks.Lib
