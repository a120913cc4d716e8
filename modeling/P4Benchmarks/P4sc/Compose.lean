import Mathlib.Data.List.Sort
import P4Benchmarks.P4sc.Merge
import P4Benchmarks.Lib.Execution
/-!
# P4SC: composing service chains

`run_merge_sfcs` merges the requested chains one after the other, and `generator` removes the
duplicates that merging leaves where two chains disagree on an order. Then one of them is lost.
-/
namespace P4Benchmarks.P4sc
open Lib List
/-- The content of the result file after merging the chains. A merge that returns nothing ends the
loop and leaves the file as it is. -/
def runMergeSfcs (lcs : List Int → List Int → List (List Int)) (result : List Int) : List (List Int) → Option (List Int)
  | [] => some result
  | l2::sfcs =>
    match merge lcs result l2 with
    | .ok mergedl => runMergeSfcs lcs mergedl sfcs
    | .error .notFound => some result
    | .error .raised => none

def removeDuplicates (content : List Int) : List Int :=
  content.dedup.insertionSort fun a b => content.idxOf a ≤ content.idxOf b
variable (lcs : List Int → List Int → List (List Int)) (first : List Int) (sfcs : List (List Int))
def compose : Option (List Int) := (runMergeSfcs lcs first sfcs).map removeDuplicates
def Kept : Prop := ∃ nfs, compose lcs first sfcs=some nfs ∧ ∀ l ∈ first::sfcs, l.Sublist nfs
def mergeNext (result l2 : List Int) : Option (List Int) := (merge lcs result l2).toOption

theorem nodup_removeDuplicates (content : List Int) : (removeDuplicates content).Nodup :=
  (perm_insertionSort _ _).nodup_iff.mpr content.nodup_dedup

theorem removeDuplicates_of_nodup {content : List Int} (h : content.Nodup) : removeDuplicates content=content := by
  rw [removeDuplicates,h.dedup]
  apply List.Pairwise.insertionSort_eq
  rw [pairwise_iff_getElem]
  intro i j hi hj hij
  rw [h.idxOf_getElem,h.idxOf_getElem]
  exact hij.le
variable {lcs : List Int → List Int → List (List Int)}
theorem merge_sameOrder (hlcs : LcsSpec lcs) {l1 l2 : List Int} (h1 : l1.Nodup) (h2 : l2.Nodup) (h : SameOrder l1 l2) :
    ∃ m, merge lcs l1 l2=.ok m ∧ m.Nodup ∧ l1.Sublist m ∧ l2.Sublist m := by
  obtain ⟨m,z,hm,hz,hs1,hs2,hlength⟩ := merge_spec hlcs h1 h2
  exact ⟨m,hm,h.nodup h1 h2 hs1 hs2 hz hlength,hs1,hs2⟩

theorem runMergeSfcs_sameOrder (hlcs : LcsSpec lcs) {result : List Int} {sfcs : List (List Int)}
    (hresult : result.Nodup) (hsfcs : ∀ l ∈ sfcs, l.Nodup) (h : EachStep (mergeNext lcs) SameOrder result sfcs) :
    ∃ m, runMergeSfcs lcs result sfcs=some m ∧ m.Nodup ∧ ∀ l ∈ result::sfcs, l.Sublist m := by
  induction sfcs generalizing result with
  | nil =>
    refine ⟨result,rfl,hresult,?_⟩
    intro l hl
    rw [mem_singleton.mp hl]
  | cons l2 sfcs ih =>
    obtain ⟨m,hm,hnodup,hs1,hs2⟩ := merge_sameOrder hlcs hresult (hsfcs l2 mem_cons_self) h.head
    have hnext : mergeNext lcs result l2=some m := by rw [mergeNext,hm]; rfl
    obtain ⟨n,hrun,hn,hkept⟩ := ih hnodup (fun l hl => hsfcs l (mem_cons_of_mem l2 hl)) (h.tail hnext)
    have hmn := hkept m mem_cons_self
    refine ⟨n,?_,hn,?_⟩
    · rw [runMergeSfcs,hm]
      exact hrun
    · intro l hl
      rw [mem_cons,mem_cons] at hl
      rcases hl with rfl | rfl | hl
      · exact hs1.trans hmn
      · exact hs2.trans hmn
      · exact hkept l (mem_cons_of_mem m hl)

/-- Merging chains that have the same order as the result so far keeps every chain. Chains can only
be kept if there is one order for all of them; for two chains that is the same condition. -/
theorem kept_of_sameOrder (hlcs : LcsSpec lcs) (first : List Int) (sfcs : List (List Int))
    (hne : ∀ l ∈ first::sfcs, l≠[]) (hnodup : ∀ l ∈ first::sfcs, l.Nodup) :
    (EachStep (mergeNext lcs) SameOrder first sfcs → Kept lcs first sfcs) ∧
    (Kept lcs first sfcs → ∃ order : List Int, order.Nodup ∧ ∀ l ∈ first::sfcs, l.Sublist order) ∧
    ∀ second, sfcs=[second] → (Kept lcs first sfcs ↔ SameOrder first second) := by
  have hkept : EachStep (mergeNext lcs) SameOrder first sfcs → Kept lcs first sfcs := by
    intro h
    obtain ⟨m,hrun,hm,hsub⟩ := runMergeSfcs_sameOrder hlcs (hnodup first mem_cons_self)
      (fun l hl => hnodup l (mem_cons_of_mem first hl)) h
    refine ⟨m,?_,hsub⟩
    rw [compose,hrun,Option.map_some,removeDuplicates_of_nodup hm]
  have horder : Kept lcs first sfcs → ∃ order : List Int, order.Nodup ∧ ∀ l ∈ first::sfcs, l.Sublist order := by
    rintro ⟨nfs,hnfs,hsub⟩
    obtain ⟨content,-,rfl⟩ := Option.map_eq_some_iff.mp hnfs
    exact ⟨_,nodup_removeDuplicates content,hsub⟩
  refine ⟨hkept,horder,?_⟩
  rintro second rfl
  constructor
  · intro h
    obtain ⟨order,ho,hsub⟩ := horder h
    exact sameOrder_of_sublist ho (hsub first (by simp)) (hsub second (by simp))
  · intro h
    apply hkept
    refine ⟨h,?_⟩
    cases mergeNext lcs first second <;> trivial

theorem three_chains_kept : Kept P4sc.lcs [1,2,3] [[2,4],[1,4,3]] :=
  (kept_of_sameOrder lcs_spec [1,2,3] [[2,4],[1,4,3]] (by decide) (by decide)).1 (by decide)

/-- Two NFs that two chains want in different orders. -/
theorem opposite_chain_lost : compose P4sc.lcs [1,2] [[2,1]]=some [1,2] ∧ ¬Kept P4sc.lcs [1,2] [[2,1]] := by
  have hcompose : compose P4sc.lcs [1,2] [[2,1]]=some [1,2] := by decide
  refine ⟨hcompose,?_⟩
  rintro ⟨nfs,hnfs,hsub⟩
  obtain rfl : [1,2]=nfs := Option.some.inj (hcompose.symm.trans hnfs)
  exact absurd (hsub [2,1] (by simp)) (by decide)
end P4Benchmarks.P4sc
