import P4Benchmarks.Lib.CommonSubsequence
/-!
# P4SC: longest common subsequences

`lcs.py` of the frontend.  The dictionary of results in the source only saves repeated calls.
-/
namespace P4Benchmarks.P4sc
open Lib List
section
variable {α : Type*} [DecidableEq α] (list1 list2 : List α)
def lcsMatRow (row : Nat) (prev : Nat → Nat) : Nat → Nat
  | 0 => 0
  | col+1 =>
    if list1[row]?=list2[col]? then prev col+1
    else max (lcsMatRow row prev col) (prev (col+1))

def lcsMat : Nat → Nat → Nat
  | 0 => fun _ => 0
  | row+1 => lcsMatRow list1 list2 row (lcsMat row)

def addSeries (lcsList before : List (List α)) : List (List α) :=
  before.foldl (fun found series => if series ∈ found then found else found++[series]) lcsList

def allLcsRow (row : Nat) (prev : Nat → List (List α)) : Nat → List (List α)
  | 0 => [[]]
  | col+1 =>
    if list1[row]?=list2[col]? then (prev col).map (· ++ list1[row]?.toList)
    else
      let left := lcsMat list1 list2 (row+1) col
      let up := lcsMat list1 list2 row (col+1)
      let lcsList := if up≤left then addSeries [] (allLcsRow row prev col) else []
      if left≤up then addSeries lcsList (prev (col+1)) else lcsList

def allLcs : Nat → Nat → List (List α)
  | 0 => fun _ => [[]]
  | row+1 => allLcsRow list1 list2 row (allLcs row)

def lcs : List (List α) := allLcs list1 list2 list1.length list2.length
end
section
variable {α : Type*}
structure Longest (n : Nat) (zs : List (List α)) (l₁ l₂ : List α) : Prop where
  nonempty : zs≠[]
  nodup : zs.Nodup
  longest : ∀ z ∈ zs, IsLongest z l₁ l₂ ∧ z.length=n

theorem Longest.length_le {n : Nat} {zs : List (List α)} {l₁ l₂ y : List α}
    (h : Longest n zs l₁ l₂) (hy : IsCommon y l₁ l₂) : y.length≤n := by
  obtain ⟨z,hz⟩ := exists_mem_of_ne_nil zs h.nonempty
  obtain ⟨hlongest,hlength⟩ := h.longest z hz
  exact hlength ▸ hlongest.2 y hy
variable {l₁ l₂ : List α}
theorem longest_empty (h : IsLongest [] l₁ l₂) : Longest 0 [[]] l₁ l₂ := by
  refine ⟨cons_ne_nil _ _,nodup_singleton _,?_⟩
  intro z hz
  rw [mem_singleton.mp hz]
  exact ⟨h,rfl⟩

theorem Longest.concat {n : Nat} {zs : List (List α)} (h : Longest n zs l₁ l₂)
    (a : α) : Longest (n+1) (zs.map (· ++ [a])) (l₁++[a]) (l₂++[a]) := by
  refine ⟨by simpa using h.nonempty,h.nodup.map (append_left_injective [a]),?_⟩
  intro z hz
  obtain ⟨y,hy,rfl⟩ := mem_map.mp hz
  obtain ⟨hlongest,hlength⟩ := h.longest y hy
  exact ⟨hlongest.concat a,by simp [hlength]⟩
variable [DecidableEq α]
theorem mem_addSeries {lcsList before : List (List α)} {z : List α} :
    z ∈ addSeries lcsList before ↔ z ∈ lcsList ∨ z ∈ before := by
  unfold addSeries
  induction before generalizing lcsList with
  | nil => simp
  | cons y ys ih =>
    rw [foldl_cons,ih]
    split_ifs with hy
    · grind
    · grind

theorem nodup_addSeries {lcsList before : List (List α)} (h : lcsList.Nodup) : (addSeries lcsList before).Nodup := by
  unfold addSeries
  induction before generalizing lcsList with
  | nil => exact h
  | cons y ys ih =>
    rw [foldl_cons]
    split_ifs with hy
    · exact ih h
    · apply ih
      rw [nodup_append]
      refine ⟨h,nodup_singleton y,?_⟩
      rintro z hz w hw rfl
      exact hy (mem_singleton.mp hw ▸ hz)

theorem Longest.either {n m : Nat} {zs ws : List (List α)} {a b : α}
    (hzs : Longest n zs (l₁++[a]) l₂) (hws : Longest m ws l₁ (l₂++[b])) (hab : a≠b) :
    Longest (max n m) (if n ≤ m then addSeries (if m≤n then addSeries [] zs else []) ws
        else if m≤n then addSeries [] zs else []) (l₁++[a]) (l₂++[b]) := by
  have hlength (y : List α) (hy : IsCommon y (l₁++[a]) (l₂++[b])) : y.length ≤ max n m := by
    rcases hy.of_concat hab with hleft | hright
    · exact (hzs.length_le hleft).trans (Nat.le_max_left n m)
    · exact (hws.length_le hright).trans (Nat.le_max_right n m)
  have hleft (hmn : m≤n) (z : List α) (hz : z ∈ zs) : IsLongest z (l₁++[a]) (l₂++[b]) ∧ z.length=max n m := by
    obtain ⟨hlongest,heq⟩ := hzs.longest z hz
    rw [← Nat.max_eq_left hmn] at heq
    exact ⟨⟨hlongest.1.concat_right b,fun y hy => heq ▸ hlength y hy⟩,heq⟩
  have hright (hnm : n ≤ m) (z : List α) (hz : z ∈ ws) : IsLongest z (l₁++[a]) (l₂++[b]) ∧ z.length=max n m := by
    obtain ⟨hlongest,heq⟩ := hws.longest z hz
    rw [← Nat.max_eq_right hnm] at heq
    exact ⟨⟨hlongest.1.concat_left a,fun y hy => heq ▸ hlength y hy⟩,heq⟩
  obtain ⟨z,hz⟩ := exists_mem_of_ne_nil zs hzs.nonempty
  obtain ⟨w,hw⟩ := exists_mem_of_ne_nil ws hws.nonempty
  split_ifs with hnm hmn hmn
  · refine ⟨ne_nil_of_mem (mem_addSeries.mpr (Or.inr hw)),
      nodup_addSeries (nodup_addSeries nodup_nil),?_⟩
    intro y hy
    rw [mem_addSeries,mem_addSeries] at hy
    rcases hy with (hnil | hy) | hy
    · cases hnil
    · exact hleft hmn y hy
    · exact hright hnm y hy
  · refine ⟨ne_nil_of_mem (mem_addSeries.mpr (Or.inr hw)),nodup_addSeries nodup_nil,?_⟩
    intro y hy
    rw [mem_addSeries] at hy
    exact hy.elim (fun hnil => by cases hnil) (hright hnm y)
  · refine ⟨ne_nil_of_mem (mem_addSeries.mpr (Or.inr hz)),nodup_addSeries nodup_nil,?_⟩
    intro y hy
    rw [mem_addSeries] at hy
    exact hy.elim (fun hnil => by cases hnil) (hleft hmn y)
  · omega

theorem allLcs_longest (list1 list2 : List α) {row col : Nat} (hrow : row≤list1.length) (hcol : col≤list2.length) :
    Longest (lcsMat list1 list2 row col) (allLcs list1 list2 row col) (list1.take row) (list2.take col) := by
  induction row generalizing col with
  | zero => exact longest_empty (isLongest_nil_left _)
  | succ row ihrow =>
    induction col with
    | zero => exact longest_empty (isLongest_nil_right _)
    | succ col ihcol =>
      have hr : row<list1.length := hrow
      have hc : col<list2.length := hcol
      have hleft := ihcol hc.le
      have hup := ihrow hr.le hcol
      rw [allLcs,allLcsRow,lcsMat,lcsMatRow]
      rw [take_succ_eq_append_getElem hr] at hleft ⊢
      rw [take_succ_eq_append_getElem hc] at hup ⊢
      rw [List.getElem?_eq_getElem hr,List.getElem?_eq_getElem hc]
      by_cases heq : some list1[row]=some list2[col]
      · rw [if_pos heq,if_pos heq,← Option.some.inj heq]
        exact (ihrow hr.le hc.le).concat list1[row]
      · rw [if_neg heq,if_neg heq]
        exact hleft.either hup fun h => heq (congrArg some h)

def LcsSpec (lcs : List α → List α → List (List α)) : Prop :=
  ∀ l₁ l₂, lcs l₁ l₂≠[] ∧ (lcs l₁ l₂).Nodup ∧ ∀ z ∈ lcs l₁ l₂, IsLongest z l₁ l₂

theorem lcs_spec : LcsSpec (@lcs α _) := by
  intro l₁ l₂
  have h := allLcs_longest l₁ l₂ le_rfl le_rfl
  rw [take_length,take_length] at h
  exact ⟨h.nonempty,h.nodup,fun z hz => (h.longest z hz).1⟩
end
end P4Benchmarks.P4sc
