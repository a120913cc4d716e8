import Mathlib.Data.List.Perm.Subperm
/-!
# Bucket queues in one array

Row `i` of a table is the part of one array that starts at `i * width`; as a queue it holds the
items of level `i + 1`.
-/
namespace P4Benchmarks.Lib
open List Function Nat
variable {α : Type*} {width : Nat} {cell : Nat → α} {i j k a n : Nat} {x : α}
def rowSegment (width : Nat) (cell : Nat → α) (i a n : Nat) : List α :=
  (List.range' a n).map fun k => cell (i*width+k)

theorem length_rowSegment : (rowSegment width cell i a n).length=n := by rw [rowSegment,length_map,length_range']
theorem rowSegment_succ : rowSegment width cell i a (n+1) = cell (i*width+a)::rowSegment width cell i (a+1) n := by rfl

theorem rowSegment_append {m : Nat} : rowSegment width cell i a (m+n) =
      rowSegment width cell i a m++rowSegment width cell i (a+m) n := by
  rw [rowSegment,rowSegment,rowSegment,← map_append,List.range'_append_1]

theorem mem_rowSegment : x ∈ rowSegment width cell i a n ↔ ∃ k, a≤k ∧ k<a+n ∧ cell (i*width+k)=x := by
  simp [rowSegment,mem_range'_1,and_assoc]

theorem row_index_inj {k' : Nat} (hk : k<width) (hk' : k'<width) (h : i*width+k=j*width+k') : i=j ∧ k=k' := by
  have hpos : 0<width := zero_lt_of_lt hk
  have hdiv := congrArg (· / width) h
  have hmod := congrArg (·%width) h
  simp only [mul_add_mod_self_right,mod_eq_of_lt hk,mod_eq_of_lt hk'] at hmod
  simp only [Nat.mul_comm _ width,mul_add_div hpos,div_eq_of_lt hk,div_eq_of_lt hk',Nat.add_zero] at hdiv
  exact ⟨hdiv,hmod⟩

theorem rowSegment_update_ne (hij : i≠j) (hk : k<width) (hn : a+n≤width) :
    rowSegment width (update cell (j*width+k) x) i a n = rowSegment width cell i a n := by
  apply map_congr_left
  intro k' hk'
  rw [mem_range'_1] at hk'
  apply update_of_ne
  intro h
  exact hij (row_index_inj (by omega) hk h).1

theorem rowSegment_update_self : rowSegment width (update cell (i*width+(a+n)) x) i a (n+1) =
      rowSegment width cell i a n++[x] := by
  rw [rowSegment,List.range'_concat,map_append,map_singleton,Nat.one_mul,update_self]
  congr 1
  apply map_congr_left
  intro k hk
  rw [mem_range'_1] at hk
  apply update_of_ne
  omega

theorem length_le_of_nodup_of_lt {l : List Nat} {m : Nat} (hnodup : l.Nodup) (hlt : ∀ v ∈ l, v < m) : l.length ≤ m := by
  have hsub : l ⊆ List.range m := fun v hv => mem_range.mpr (hlt v hv)
  have hle := (subperm_of_subset hnodup hsub).length_le
  rwa [length_range] at hle
section Buckets
variable {rows : Nat} {cell : Nat → Nat} {count head : Nat → Nat} {level : Nat → Int} {w : Nat}
def rowItems (width : Nat) (cell count : Nat → Nat) (i : Nat) : List Nat := rowSegment width cell i 0 (count i)

def rowQueue (width : Nat) (cell count head : Nat → Nat) (i : Nat) : List Nat :=
  rowSegment width cell i (head i) (count i-head i)

/-- The queues hold the items below `width`, each in the row of its level; whatever has left a row
has a lower level. -/
structure Buckets (width rows : Nat) (cell count head : Nat → Nat) (level : Nat → Int) : Prop where
  head_le : ∀ i < rows, head i ≤ count i
  nodup : ∀ i < rows, (rowItems width cell count i).Nodup
  item_lt : ∀ i < rows, ∀ w ∈ rowItems width cell count i, w<width
  level_le : ∀ i < rows, ∀ w ∈ rowItems width cell count i, level w ≤ i+1
  mem_queue : ∀ i < rows, ∀ w<width, w ∈ rowQueue width cell count head i ↔ level w=i+1

theorem rowItems_eq (hle : head i ≤ count i) : rowItems width cell count i =
      rowSegment width cell i 0 (head i)++rowQueue width cell count head i := by
  rw [rowItems,rowQueue]
  nth_rewrite 1 [← Nat.add_sub_cancel' hle]
  rw [rowSegment_append,Nat.zero_add]
section Push
def pushCell (width : Nat) (cell count : Nat → Nat) (i w : Nat) : Nat → Nat := update cell (i*width+count i) w
def pushCount (count : Nat → Nat) (i : Nat) : Nat → Nat := update count i (count i+1)

theorem rowItems_push_self : rowItems width (pushCell width cell count i w) (pushCount count i) i =
      rowItems width cell count i++[w] := by
  rw [rowItems,rowItems,pushCell,pushCount,update_self]
  nth_rewrite 1 [← Nat.zero_add (count i)]
  exact rowSegment_update_self

theorem rowItems_push_ne (hne : j≠i) (hroom : count i<width) (hle : count j≤width) :
    rowItems width (pushCell width cell count i w) (pushCount count i) j = rowItems width cell count j := by
  rw [rowItems,rowItems,pushCell,pushCount,update_of_ne hne]
  exact rowSegment_update_ne hne hroom (by omega)

theorem rowQueue_push_self (hle : head i ≤ count i) :
    rowQueue width (pushCell width cell count i w) (pushCount count i) head i =
      rowQueue width cell count head i++[w] := by
  rw [rowQueue,rowQueue,pushCell,pushCount,update_self,succ_sub hle]
  nth_rewrite 1 [← Nat.add_sub_cancel' hle]
  exact rowSegment_update_self

theorem rowQueue_push_ne (hne : j≠i) (hroom : count i<width) (hle : count j≤width) (hhead : head j ≤ count j) :
    rowQueue width (pushCell width cell count i w) (pushCount count i) head j = rowQueue width cell count head j := by
  rw [rowQueue,rowQueue,pushCell,pushCount,update_of_ne hne]
  exact rowSegment_update_ne hne hroom (by omega)
end Push
namespace Buckets
theorem empty (hlevel : ∀ w<width, level w≤0) : Buckets width rows cell (fun _ => 0) (fun _ => 0) level where
  head_le _ _ := Nat.le_refl 0
  nodup _ _ := nodup_nil
  item_lt _ _ _ hw := absurd hw not_mem_nil
  level_le _ _ _ hw := absurd hw not_mem_nil
  mem_queue i _ w hw := by
    have hle := hlevel w hw
    refine ⟨fun h => absurd h not_mem_nil,fun h => ?_⟩
    omega
variable (h : Buckets width rows cell count head level)
include h
theorem congr {level' : Nat → Int} (hlevel : ∀ w<width, level' w=level w ∨ (level w≤0 ∧ level' w≤0)) :
    Buckets width rows cell count head level' where
  __ := h
  level_le i hi w hw := by
    have hle := h.level_le i hi w hw
    rcases hlevel w (h.item_lt i hi w hw) with heq | ⟨-,hneg⟩
    · rw [heq]
      exact hle
    · omega
  mem_queue i hi w hw := by
    rw [h.mem_queue i hi w hw]
    rcases hlevel w hw with heq | ⟨hneg,hneg'⟩
    · rw [heq]
    · constructor <;> intro <;> omega

theorem level_head (hi : i < rows) (hlt : head i < count i) :
    cell (i*width+head i)<width ∧ level (cell (i*width+head i))=i+1 := by
  have hmem : cell (i*width+head i) ∈ rowQueue width cell count head i :=
    mem_rowSegment.mpr ⟨head i,Nat.le_refl _,by omega,rfl⟩
  have hitem : cell (i*width+head i) ∈ rowItems width cell count i := by
    rw [rowItems_eq (h.head_le i hi)]
    exact mem_append_right _ hmem
  have hw := h.item_lt i hi _ hitem
  exact ⟨hw,(h.mem_queue i hi _ hw).mp hmem⟩

theorem level_ne_of_empty (hi : i < rows) (hge : count i≤head i) (hw : w<width) : level w≠i+1 := by
  intro hlevel
  have hmem := (h.mem_queue i hi w hw).mpr hlevel
  rw [rowQueue,Nat.sub_eq_zero_of_le hge] at hmem
  exact not_mem_nil hmem

theorem count_le (hi : i < rows) : count i≤width := by
  have hle := length_le_of_nodup_of_lt (h.nodup i hi) (h.item_lt i hi)
  rwa [rowItems,length_rowSegment] at hle

theorem count_lt (hi : i < rows) (hw : w<width) (hnew : w ∉ rowItems width cell count i) : count i<width := by
  have hlt : ∀ v ∈ w::rowItems width cell count i, v<width := by
    intro v hv
    rcases mem_cons.mp hv with rfl | hv
    · exact hw
    · exact h.item_lt i hi v hv
  have hle := length_le_of_nodup_of_lt (nodup_cons.mpr ⟨hnew,h.nodup i hi⟩) hlt
  rwa [length_cons,rowItems,length_rowSegment] at hle

theorem mem_rowItems_push {v : Nat} (hroom : count i<width) (hj : j < rows)
    (hv : v ∈ rowItems width (pushCell width cell count i w) (pushCount count i) j) :
    v ∈ rowItems width cell count j ∨ v=w := by
  by_cases hji : j=i
  · rw [hji,rowItems_push_self,mem_append,mem_singleton] at hv
    rwa [hji]
  · rw [rowItems_push_ne hji hroom (h.count_le hj)] at hv
    exact .inl hv

theorem push (hi : i < rows) (hw : w<width) (hlevel : level w≤0)
    (habove : ∀ j < rows, w ∈ rowItems width cell count j → i<j) :
    Buckets width rows (pushCell width cell count i w) (pushCount count i) head (update level w (i+1)) := by
  have hnew : w ∉ rowItems width cell count i := fun hmem => Nat.lt_irrefl i (habove i hi hmem)
  have hroom := h.count_lt hi hw hnew
  have hhead := h.head_le i hi
  refine ⟨fun j hj => ?_,fun j hj => ?_,fun j hj v hv => ?_,fun j hj v hv => ?_, fun j hj v hv => ?_⟩
  · by_cases hji : j=i
    · rw [hji,pushCount,update_self]
      omega
    · rw [pushCount,update_of_ne hji]
      exact h.head_le j hj
  · by_cases hji : j=i
    · rw [hji,rowItems_push_self]
      apply nodup_append.mpr
      refine ⟨h.nodup i hi,pairwise_singleton _ w,fun a ha b hb hab => hnew ?_⟩
      rwa [hab,mem_singleton.mp hb] at ha
    · rw [rowItems_push_ne hji hroom (h.count_le hj)]
      exact h.nodup j hj
  · rcases h.mem_rowItems_push hroom hj hv with hv | rfl
    · exact h.item_lt j hj v hv
    · exact hw
  · by_cases hvw : v=w
    · rw [hvw,update_self]
      by_cases hji : j=i
      · omega
      · rw [rowItems_push_ne hji hroom (h.count_le hj),hvw] at hv
        have := habove j hj hv
        omega
    · rw [update_of_ne hvw]
      exact h.level_le j hj v ((h.mem_rowItems_push hroom hj hv).resolve_right hvw)
  · by_cases hvw : v=w
    · rw [hvw,update_self]
      by_cases hji : j=i
      · rw [hji,rowQueue_push_self hhead]
        simp
      · rw [rowQueue_push_ne hji hroom (h.count_le hj) (h.head_le j hj),h.mem_queue j hj w hw]
        constructor <;> intro <;> omega
    · rw [update_of_ne hvw]
      by_cases hji : j=i
      · rw [hji,rowQueue_push_self hhead,mem_append,mem_singleton,or_iff_left hvw]
        exact h.mem_queue i hi v hv
      · rw [rowQueue_push_ne hji hroom (h.count_le hj) (h.head_le j hj)]
        exact h.mem_queue j hj v hv

theorem pop (hi : i < rows) (hlt : head i < count i) : Buckets width rows cell count (update head i (head i+1))
      (update level (cell (i*width+head i)) 0) := by
  obtain ⟨hw,hlevel⟩ := h.level_head hi hlt
  have hqueue : rowQueue width cell count head i=cell (i*width+head i) ::
      rowQueue width cell count (update head i (head i+1)) i := by
    rw [rowQueue,rowQueue,update_self,show count i-head i=count i-(head i+1)+1 by omega]
    exact rowSegment_succ
  have hqueue' (j : Nat) (hne : j≠i) : rowQueue width cell count (update head i (head i+1)) j =
        rowQueue width cell count head j := by
    rw [rowQueue,rowQueue,update_of_ne hne]
  have hgone : cell (i*width+head i) ∉ rowQueue width cell count (update head i (head i+1)) i := by
    have hnodup := h.nodup i hi
    rw [rowItems_eq (h.head_le i hi)] at hnodup
    have hrest := (nodup_append.mp hnodup).2.1
    rw [hqueue,nodup_cons] at hrest
    exact hrest.1
  refine ⟨fun j hj => ?_,h.nodup,h.item_lt,fun j hj v hv => ?_,fun j hj v hv => ?_⟩
  · by_cases hji : j=i
    · rw [hji,update_self]
      omega
    · rw [update_of_ne hji]
      exact h.head_le j hj
  · by_cases hvw : v=cell (i*width+head i)
    · rw [hvw,update_self]
      omega
    · rw [update_of_ne hvw]
      exact h.level_le j hj v hv
  · by_cases hji : j=i
    · by_cases hvw : v=cell (i*width+head i)
      · rw [hvw,update_self,hji]
        refine ⟨fun hmem => absurd hmem hgone,fun hzero => ?_⟩
        omega
      · have hmem := h.mem_queue i hi v hv
        rw [hqueue,mem_cons,or_iff_right hvw] at hmem
        rw [update_of_ne hvw,hji]
        exact hmem
    · rw [hqueue' j hji,h.mem_queue j hj v hv]
      by_cases hvw : v=cell (i*width+head i)
      · rw [hvw,update_self,hlevel]
        constructor <;> intro <;> omega
      · rw [update_of_ne hvw]
end Buckets
end Buckets
end P4Benchmarks.Lib
