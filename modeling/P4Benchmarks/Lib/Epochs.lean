import Mathlib.Data.List.Induction
import Mathlib.Order.Defs.PartialOrder
/-! # Aggregation by epoch -/
namespace P4Benchmarks.Lib
open List
universe u v w
variable {κ : Type u} {α : Type v} {σ : Type w}
def epochStep [DecidableEq κ] (key : α → κ) (add : σ → α → σ) (zero : σ) (s : κ × σ) (a : α) : κ × σ :=
  if key a=s.1 then (s.1,add s.2 a) else (key a,add zero a)

def closedEpochs [DecidableEq κ] (key : α → κ) (add : σ → α → σ) (zero : σ) : κ × σ → List α → List (κ × σ)
  | _, [] => []
  | s, a::as => (if key a=s.1 then [] else [s])++closedEpochs key add zero (epochStep key add zero s a) as
section Runs
variable [DecidableEq κ] (key : α → κ) (add : σ → α → σ) (zero : σ) (s : κ × σ)
theorem closedEpochs_append (as bs : List α) : closedEpochs key add zero s (as++bs) = closedEpochs key add zero s as ++
        closedEpochs key add zero (as.foldl (epochStep key add zero) s) bs := by
  induction as generalizing s with
  | nil => rfl
  | cons a as ih => rw [cons_append,closedEpochs,ih,closedEpochs,append_assoc,
      foldl_cons]

theorem closedEpochs_concat (as : List α) (a : α) :
    closedEpochs key add zero s (as++[a])=closedEpochs key add zero s as ++
      if key a=(as.foldl (epochStep key add zero) s).1 then []
      else [as.foldl (epochStep key add zero) s] := by
  rw [closedEpochs_append]
  simp [closedEpochs,append_nil]
end Runs

def ofEpoch [DecidableEq κ] (key : α → κ) (k : κ) (as : List α) : List α := as.filter fun a => key a=k

section Items
variable [DecidableEq κ] {key : α → κ} {k : κ} {as : List α}
theorem ofEpoch_eq_nil (h : ∀ a ∈ as, key a≠k) : ofEpoch key k as=[] := by
  rw [ofEpoch,filter_eq_nil_iff]
  intro a ha
  simpa using h a ha

theorem ofEpoch_append (as bs : List α) : ofEpoch key k (as++bs)=ofEpoch key k as++ofEpoch key k bs :=
  filter_append ..
end Items
section Sorted
variable [PartialOrder κ] [DecidableEq κ] {key : α → κ} {add : σ → α → σ} {zero : σ}
/-- The collector holds the last key and the aggregate of the items with that key; no item has a
larger key. -/
theorem foldl_epochStep (key : α → κ) (add : σ → α → σ) (zero : σ) {k₀ : κ} {as : List α} (hleast : ∀ a ∈ as, k₀≤key a)
    (hsorted : as.Pairwise fun a b => key a≤key b) :
    ∃ k, as.foldl (epochStep key add zero) (k₀,zero)=(k,(ofEpoch key k as).foldl add zero) ∧
      (∀ a ∈ as, key a≤k) ∧ (k=k₀ ∨ ∃ a ∈ as, key a=k) := by
  induction as using List.reverseRecOn with
  | nil => exact ⟨k₀,rfl,by simp,.inl rfl⟩
  | append_singleton as a ih =>
    rw [pairwise_append] at hsorted
    have hlast : ∀ b ∈ as, key b≤key a := fun b hb => hsorted.2.2 b hb a (by simp)
    have hbefore : ∀ b ∈ as, k₀≤key b := fun b hb => hleast b (by simp [hb])
    obtain ⟨k,hfold,hmax,hk⟩ := ih hbefore hsorted.1
    have hle : k≤key a := by
      rcases hk with rfl | ⟨b,hb,rfl⟩
      · exact hleast a (by simp)
      · exact hlast b hb
    rw [foldl_append,hfold,foldl_cons,foldl_nil,epochStep]
    by_cases hka : key a=k
    · refine ⟨k,?_,?_,.inr ⟨a,by simp,hka⟩⟩
      · simp [ofEpoch,hka]
      · intro b hb
        rcases mem_append.mp hb with hb | hb
        · exact hmax b hb
        · rw [mem_singleton.mp hb,hka]
    · -- a new key is larger than all earlier ones
      have hnone : ofEpoch key (key a) as=[] := by
        apply ofEpoch_eq_nil
        intro b hb hba
        exact hka (le_antisymm (hba ▸ hmax b hb) hle)
      refine ⟨key a,?_,?_,.inr ⟨a,by simp,rfl⟩⟩
      · rw [if_neg hka,ofEpoch_append,hnone]
        simp [ofEpoch]
      · intro b hb
        rcases mem_append.mp hb with hb | hb
        · exact hlast b hb
        · rw [mem_singleton.mp hb]

/-- What is handed out for a key is the aggregate of all items with this key; an epoch that some
item belongs to is closed by an item with a larger key. -/
theorem closedEpochs_exact {k₀ : κ} {as : List α} (hleast : ∀ a ∈ as, k₀≤key a)
    (hsorted : as.Pairwise fun a b => key a≤key b) {x : κ × σ}
    (hx : x ∈ closedEpochs key add zero (k₀,zero) as) :
    x.2=(ofEpoch key x.1 as).foldl add zero ∧ (x.1=k₀ ∨ ∃ a ∈ as, key a=x.1) ∧ ∃ a ∈ as, x.1<key a := by
  induction as using List.reverseRecOn with
  | nil => simp [closedEpochs] at hx
  | append_singleton as a ih =>
    rw [pairwise_append] at hsorted
    have hlast : ∀ b ∈ as, key b≤key a := fun b hb => hsorted.2.2 b hb a (by simp)
    have hbefore : ∀ b ∈ as, k₀≤key b := fun b hb => hleast b (by simp [hb])
    have hlater : x.1<key a → ofEpoch key x.1 (as++[a])=ofEpoch key x.1 as := by
      intro hlt
      have hnone : ofEpoch key x.1 [a]=[] := ofEpoch_eq_nil (by simpa using ne_of_gt hlt)
      rw [ofEpoch_append,hnone,append_nil]
    rw [closedEpochs_concat,mem_append] at hx
    rcases hx with hx | hx
    · obtain ⟨hagg,hopen,b,hb,hlt⟩ := ih hbefore hsorted.1 hx
      have hlta : x.1<key a := lt_of_lt_of_le hlt (hlast b hb)
      refine ⟨by rw [hlater hlta,hagg],?_,a,by simp,hlta⟩
      rcases hopen with h | ⟨c,hc,h⟩
      · exact .inl h
      · exact .inr ⟨c,by simp [hc],h⟩
    · obtain ⟨k,hfold,-,hk⟩ := foldl_epochStep key add zero hbefore hsorted.1
      rw [hfold] at hx
      by_cases hka : key a=k
      · simp [hka] at hx
      · rw [if_neg hka,mem_singleton] at hx
        have hle : k≤key a := by
          rcases hk with rfl | ⟨b,hb,rfl⟩
          · exact hleast a (by simp)
          · exact hlast b hb
        subst hx
        have hlta : k<key a := lt_of_le_of_ne hle (Ne.symm hka)
        refine ⟨(congrArg (List.foldl add zero) (hlater hlta)).symm,?_,a,by simp,hlta⟩
        rcases hk with h | ⟨c,hc,h⟩
        · exact .inl h
        · exact .inr ⟨c,by simp [hc],h⟩
end Sorted
end P4Benchmarks.Lib
