import Mathlib.Algebra.GroupWithZero.Nat
import Mathlib.Data.Fintype.Basic
import Mathlib.Data.Finset.Card
/-! # Counting recent items in a ring of bins -/
namespace P4Benchmarks.Lib.SlidingCount
open BitVec Function Nat Finset
variable {ι : Type*} {n w : ℕ} {bins : ℕ → BitVec w} {index : ℕ}
  {sum : BitVec w} {age : ι → Option ℕ}

@[local simp] def aged [Fintype ι] (age : ι → Option ℕ) (a : ℕ) : Finset ι := univ.filter fun i => age i=some a

def live [Fintype ι] (age : ι → Option ℕ) : Finset ι := univ.filter fun i => age i≠none
def slot (n index a : ℕ) : ℕ := (index+n-a)%n
def next (n index : ℕ) : ℕ := if n ≤ index+1 then 0 else index+1

def older (n : ℕ) (age : ι → Option ℕ) : ι → Option ℕ := fun i =>
  (age i).bind fun a => if a+1<n then some (a+1) else none

structure Counts [Fintype ι] (n : ℕ) (bins : ℕ → BitVec w) (index : ℕ) (sum : BitVec w)
    (age : ι → Option ℕ) : Prop where
  index_lt : index<n
  age_lt : ∀ i a, age i=some a → a<n
  bin : ∀ a, a<n → bins (slot n index a)=.ofNat w (aged age a).card
  sum : sum=.ofNat w (live age).card

theorem slot_lt (hn : 0<n) (index a : ℕ) : slot n index a<n := mod_lt _ hn
theorem slot_zero (h : index<n) : slot n index 0=index := by rw [slot,Nat.sub_zero,add_mod_right,mod_eq_of_lt h]

theorem next_lt (hn : 0<n) (index : ℕ) : next n index<n := by
  unfold next
  split_ifs <;> omega

theorem slot_next {a : ℕ} (hindex : index<n) (ha : a+1<n) : slot n (next n index) (a+1)=slot n index a := by
  unfold slot next
  split_ifs with hwrap
  · rw [show index+n-a=n+(0+n-(a+1)) by omega,add_mod_left,
      mod_eq_of_lt (by omega)]
  · rw [show index+1+n-(a+1)=index+n-a by omega]

theorem slot_oldest (hindex : index<n) : slot n index (n-1)=next n index := by
  unfold slot next
  rw [show index+n-(n-1)=index+1 by omega]
  split_ifs with hwrap
  · rw [show index+1=n by omega,mod_self]
  · exact mod_eq_of_lt (by omega)

theorem slot_injOn {a b : ℕ} (hindex : index<n) (ha : a<n) (hb : b<n) (h : slot n index a=slot n index b) : a=b := by
  unfold slot at h
  by_cases hai : a ≤ index <;> by_cases hbi : b ≤ index
  · rw [show index+n-a=n+(index-a) by omega,show index+n-b=n+(index-b) by omega,
      add_mod_left,add_mod_left,mod_eq_of_lt (by omega),
      mod_eq_of_lt (by omega)] at h
    omega
  · rw [show index+n-a=n+(index-a) by omega,add_mod_left,
      mod_eq_of_lt (by omega),mod_eq_of_lt (by omega)] at h
    omega
  · rw [show index+n-b=n+(index-b) by omega,add_mod_left,
      mod_eq_of_lt (by omega),mod_eq_of_lt (by omega)] at h
    omega
  · rw [mod_eq_of_lt (by omega),mod_eq_of_lt (by omega)] at h
    omega

theorem older_eq_some {i : ι} {a : ℕ} : older n age i=some a ↔ ∃ b, age i=some b ∧ b+1<n ∧ a=b+1 := by
  unfold older
  rw [Option.bind_eq_some_iff]
  constructor
  · rintro ⟨b,hb,h⟩
    split_ifs at h with hlt
    exact ⟨b,hb,hlt,(Option.some.inj h).symm⟩
  · rintro ⟨b,hb,hlt,rfl⟩
    exact ⟨b,hb,if_pos hlt⟩
variable [Fintype ι]
theorem aged_older_zero : aged (older n age) 0 = ∅ := by
  apply filter_false_of_mem
  intro i _ h
  obtain ⟨b,-,-,hb⟩ := older_eq_some.mp h
  omega

theorem aged_older_succ {a : ℕ} (ha : a+1<n) : aged (older n age) (a+1)=aged age a := by
  apply filter_congr
  intro i _
  rw [older_eq_some]
  constructor
  · rintro ⟨b,hb,-,heq⟩
    rw [hb,succ.inj heq]
  · intro h
    exact ⟨a,h,ha,rfl⟩

theorem card_live_older [DecidableEq ι] (hage : ∀ i a, age i=some a → a<n) :
    (live age).card=(live (older n age)).card+(aged age (n-1)).card := by
  rw [← card_union_of_disjoint]
  · congr 1
    ext i
    simp only [live,aged,mem_union,mem_filter,mem_univ,true_and]
    cases hi : age i with
    | none => simp [older,hi]
    | some a =>
      have ha := hage i a hi
      by_cases hlt : a+1<n
      · simp [older,hi,hlt]
      · simp [older,hi,hlt]
        omega
  · rw [disjoint_left]
    intro i hi hold
    simp only [live,aged,mem_filter,mem_univ,true_and] at hi hold
    apply hi
    have hn : ¬ (n-1+1<n) := by omega
    simp [older,hold,hn]
section Update
variable [DecidableEq ι] {i : ι} (hi : age i=none)
include hi
theorem aged_update (a : ℕ) : aged (update age i (some a)) a=insert i (aged age a) := by
  ext j
  by_cases hj : j=i
  · subst hj
    simp
  · simp [hj]

theorem aged_update_of_ne {a b : ℕ} (hab : b≠a) : aged (update age i (some a)) b=aged age b := by
  ext j
  by_cases hj : j=i
  · subst hj
    simp [hi,Ne.symm hab]
  · simp [update_of_ne hj]

theorem card_aged_update (a : ℕ) : (aged (update age i (some a)) a).card=(aged age a).card+1 := by
  rw [aged_update hi,card_insert_of_notMem (by simp [hi])]

theorem card_live_update (a : ℕ) : (live (update age i (some a))).card=(live age).card+1 := by
  have hinsert : live (update age i (some a))=insert i (live age) := by
    ext j
    by_cases hj : j=i
    · subst hj
      simp [live]
    · simp [live,hj]
  rw [hinsert,card_insert_of_notMem (by simp [live,hi])]
end Update

theorem counts_clear (hn : 0<n) (hbins : ∀ i, i<n → bins i=0) : Counts n bins 0 0 (fun _ : ι => none) where
  index_lt := hn
  age_lt _ _ h := by cases h
  bin a _ := by
    rw [hbins _ (slot_lt hn 0 a)]
    simp
  sum := by simp [live]
variable (h : Counts n bins index sum age)
include h
theorem Counts.congr {bins' : ℕ → BitVec w} (hbins : ∀ i, i<n → bins' i=bins i) : Counts n bins' index sum age where
  __ := h
  bin a ha := by
    rw [hbins _ (slot_lt (Nat.lt_of_le_of_lt (Nat.zero_le _) h.index_lt) index a)]
    exact h.bin a ha

theorem Counts.advance [DecidableEq ι] :
    Counts n (update bins (next n index) 0) (next n index) (sum-bins (next n index)) (older n age) := by
  have hn : 0<n := Nat.lt_of_le_of_lt (Nat.zero_le _) h.index_lt
  refine ⟨next_lt hn index,fun i a hi => ?_,fun a ha => ?_,?_⟩
  · obtain ⟨b,-,hlt,rfl⟩ := older_eq_some.mp hi
    exact hlt
  · cases a with
    | zero => rw [slot_zero (next_lt hn index),update_self,aged_older_zero]; rfl
    | succ a =>
      have hne : slot n index a≠next n index := by
        rw [← slot_oldest h.index_lt]
        intro heq
        have := slot_injOn h.index_lt (by omega) (by omega) heq
        omega
      rw [slot_next h.index_lt ha,update_of_ne hne,aged_older_succ ha,h.bin a (by omega)]
  · rw [← slot_oldest h.index_lt,h.bin (n-1) (by omega),h.sum,card_live_older h.age_lt,
      ofNat_add,add_sub_cancel]

theorem Counts.record [DecidableEq ι] {i : ι} (hi : age i=none) :
    Counts n (update bins index (bins index+1#w)) index (sum+1#w) (update age i (some 0)) := by
  have hn : 0<n := Nat.lt_of_le_of_lt (Nat.zero_le _) h.index_lt
  refine ⟨h.index_lt,fun j a hj => ?_,fun a ha => ?_,?_⟩
  · by_cases hji : j=i
    · rw [hji,update_self] at hj
      cases hj
      exact hn
    · rw [update_of_ne hji] at hj
      exact h.age_lt j a hj
  · cases a with
    | zero =>
      have hbin := h.bin 0 hn
      rw [slot_zero h.index_lt] at hbin ⊢
      rw [update_self,card_aged_update hi,ofNat_add,hbin]
    | succ a =>
      have hne : slot n index (a+1)≠index := by
        intro heq
        have hzero := slot_injOn h.index_lt ha hn (heq.trans (slot_zero h.index_lt).symm)
        exact succ_ne_zero a hzero
      rw [update_of_ne hne,aged_update_of_ne hi (succ_ne_zero a),h.bin _ ha]
  · rw [h.sum,card_live_update hi,ofNat_add]

theorem Counts.remove [DecidableEq ι] {i : ι} {a : ℕ} (hi : age i=some a) :
    Counts n (update bins (slot n index a) (bins (slot n index a)-1#w)) index (sum-1#w) (update age i none) := by
  have ha := h.age_lt i a hi
  have hnone : update age i none i=none := update_self i none age
  -- the item was put in last, as far as the counts go
  have hback : update (update age i none) i (some a)=age := by rw [update_idem,← hi,update_eq_self]
  refine ⟨h.index_lt,fun j b hj => ?_,fun b hb => ?_,?_⟩
  · by_cases hji : j=i
    · rw [hji,hnone] at hj
      cases hj
    · rw [update_of_ne hji] at hj
      exact h.age_lt j b hj
  · by_cases hba : b=a
    · subst hba
      have hcard := card_aged_update hnone b
      rw [hback] at hcard
      rw [update_self,h.bin b hb,hcard,ofNat_add,add_sub_cancel]
    · have hne : slot n index b≠slot n index a := fun heq =>
        hba (slot_injOn h.index_lt hb ha heq)
      have haged := aged_update_of_ne hnone hba
      rw [hback] at haged
      rw [update_of_ne hne,h.bin b hb,haged]
  · have hcard := card_live_update hnone a
    rw [hback] at hcard
    rw [h.sum,hcard,ofNat_add,add_sub_cancel]

theorem Counts.toNat_sum_le : sum.toNat≤(live age).card := by
  rw [h.sum,toNat_ofNat]
  exact mod_le _ _
end P4Benchmarks.Lib.SlidingCount
