import Mathlib.Data.Finset.Card
/-! # Common subsequences and supersequences -/
namespace P4Benchmarks.Lib
open List
variable {α : Type*} (z l₁ l₂ : List α)
def IsCommon : Prop := z.Sublist l₁ ∧ z.Sublist l₂
def IsLongest : Prop := IsCommon z l₁ l₂ ∧ ∀ y, IsCommon y l₁ l₂ → y.length≤z.length

theorem IsLongest.length_eq {z y l₁ l₂ : List α} (hz : IsLongest z l₁ l₂)
    (hy : IsLongest y l₁ l₂) : z.length=y.length :=
  Nat.le_antisymm (hy.2 z hz.1) (hz.2 y hy.1)
variable {z l₁ l₂ : List α}
theorem IsLongest.symm (h : IsLongest z l₁ l₂) : IsLongest z l₂ l₁ := ⟨h.1.symm,fun y hy => h.2 y hy.symm⟩

theorem isLongest_nil_left (l₂ : List α) : IsLongest [] [] l₂ :=
  ⟨⟨List.Sublist.refl [],nil_sublist l₂⟩,fun _ hy => hy.1.length_le⟩

theorem isLongest_nil_right (l₁ : List α) : IsLongest [] l₁ [] := (isLongest_nil_left l₁).symm

theorem sublist_concat_iff {z l : List α} {a : α} : z.Sublist (l++[a]) ↔ z.Sublist l ∨ ∃ y, z=y++[a] ∧ y.Sublist l := by
  rw [sublist_append_iff]
  constructor
  · rintro ⟨y,t,rfl,hy,ht⟩
    rcases sublist_singleton.mp ht with rfl | rfl
    · rw [append_nil]
      exact Or.inl hy
    · exact Or.inr ⟨y,rfl,hy⟩
  · rintro (hz | ⟨y,rfl,hy⟩)
    · exact ⟨z,[],(append_nil z).symm,hz,nil_sublist _⟩
    · exact ⟨y,[a],rfl,hy,List.Sublist.refl _⟩

theorem IsLongest.concat (h : IsLongest z l₁ l₂) (a : α) : IsLongest (z++[a]) (l₁++[a]) (l₂++[a]) := by
  refine ⟨⟨h.1.1.append_right [a],h.1.2.append_right [a]⟩,?_⟩
  rintro y ⟨hy₁,hy₂⟩
  rw [length_append,length_singleton]
  rcases sublist_concat_iff.mp hy₁ with hold | ⟨x,rfl,hx⟩
  · rcases sublist_concat_iff.mp hy₂ with hold' | ⟨x,rfl,hx⟩
    · exact (h.2 y ⟨hold,hold'⟩).trans (Nat.le_succ _)
    · have hle := h.2 x ⟨(sublist_append_left x [a]).trans hold,hx⟩
      simpa using hle
  · have hx₂ : x.Sublist l₂ := by
      rcases sublist_concat_iff.mp hy₂ with hold | ⟨x',heq,hx'⟩
      · exact (sublist_append_left x [a]).trans hold
      · rwa [(append_inj' heq rfl).1]
    simpa using h.2 x ⟨hx,hx₂⟩

theorem IsCommon.of_concat {a b : α} (hab : a≠b) (h : IsCommon z (l₁++[a]) (l₂++[b])) :
    IsCommon z (l₁++[a]) l₂ ∨ IsCommon z l₁ (l₂++[b]) := by
  rcases sublist_concat_iff.mp h.1 with hold | ⟨x,rfl,-⟩
  · exact Or.inr ⟨hold,h.2⟩
  · rcases sublist_concat_iff.mp h.2 with hold | ⟨y,heq,-⟩
    · exact Or.inl ⟨h.1,hold⟩
    · exact absurd (singleton_inj.mp (append_inj' heq rfl).2) hab

theorem IsCommon.concat_left (h : IsCommon z l₁ l₂) (a : α) : IsCommon z (l₁++[a]) l₂ :=
  ⟨h.1.trans (sublist_append_left l₁ [a]),h.2⟩

theorem IsCommon.concat_right (h : IsCommon z l₁ l₂) (b : α) : IsCommon z l₁ (l₂++[b]) :=
  ⟨h.1,h.2.trans (sublist_append_left l₂ [b])⟩
section
variable [DecidableEq α]
def SameOrder (l₁ l₂ : List α) : Prop := l₁.filter (· ∈ l₂)=l₂.filter (· ∈ l₁)
instance (l₁ l₂ : List α) : Decidable (SameOrder l₁ l₂) := inferInstanceAs (Decidable (_=_))

theorem filter_mem_of_sublist {l m : List α} (h : l.Sublist m) (hm : m.Nodup) : m.filter (· ∈ l)=l := by
  induction h with
  | slnil => rfl
  | @cons l m a hlm ih =>
    obtain ⟨ha,hm⟩ := nodup_cons.mp hm
    rw [filter_cons_of_neg (by simpa using fun hmem => ha (hlm.subset hmem)),ih hm]
  | @cons_cons l m a hlm ih =>
    obtain ⟨ha,hm⟩ := nodup_cons.mp hm
    rw [filter_cons_of_pos (by simp)]
    have hcongr : m.filter (· ∈ a::l)=m.filter (· ∈ l) := by
      apply filter_congr
      intro b hb
      have hba : b≠a := fun h => ha (h ▸ hb)
      simp [hba]
    rw [hcongr,ih hm]

theorem sameOrder_of_sublist {l₁ l₂ m : List α} (hm : m.Nodup) (h₁ : l₁.Sublist m)
    (h₂ : l₂.Sublist m) : SameOrder l₁ l₂ := by
  calc l₁.filter (· ∈ l₂)=(m.filter (· ∈ l₁)).filter (· ∈ l₂) := by rw [filter_mem_of_sublist h₁ hm]
    _=(m.filter (· ∈ l₂)).filter (· ∈ l₁) := by rw [filter_comm]
    _=l₂.filter (· ∈ l₁) := by rw [filter_mem_of_sublist h₂ hm]

/-- A common supersequence whose length is that of both lists without a longest common subsequence
has no repetition if the lists have the same order. -/
theorem SameOrder.nodup {l₁ l₂ m z : List α} (h : SameOrder l₁ l₂) (hl₁ : l₁.Nodup) (hl₂ : l₂.Nodup) (h₁ : l₁.Sublist m)
    (h₂ : l₂.Sublist m) (hz : IsLongest z l₁ l₂) (hlength : m.length+z.length=l₁.length+l₂.length) : m.Nodup := by
  have hcommon : (l₁.filter (· ∈ l₂)).length≤z.length := hz.2 _ ⟨filter_sublist,h ▸ filter_sublist⟩
  have hinter : (l₁.toFinset ∩ l₂.toFinset).card=(l₁.filter (· ∈ l₂)).length := by
    rw [← toFinset_card_of_nodup (hl₁.filter _),toFinset_filter]
    congr 1
    ext a
    simp
  have hunion := Finset.card_union_add_card_inter l₁.toFinset l₂.toFinset
  rw [hinter,toFinset_card_of_nodup hl₁,toFinset_card_of_nodup hl₂] at hunion
  have hsub : l₁.toFinset ∪ l₂.toFinset ⊆ m.toFinset := by
    intro a ha
    rw [Finset.mem_union,mem_toFinset,mem_toFinset] at ha
    rw [mem_toFinset]
    exact ha.elim (fun h => h₁.subset h) fun h => h₂.subset h
  have hcard := Finset.card_le_card hsub
  have hle := m.toFinset_card_le
  exact Multiset.toFinset_card_eq_card_iff_nodup.mp (show m.toFinset.card=m.length by omega)
end
end P4Benchmarks.Lib
