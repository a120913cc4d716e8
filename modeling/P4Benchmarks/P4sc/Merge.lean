import P4Benchmarks.P4sc.Lcs
/-!
# P4SC: merging two service chains

`merge` of `libMerge.py`: the shorter list is inserted into the longer one along a longest common
subsequence.
-/
namespace P4Benchmarks.P4sc
open Lib List
inductive MergeError where
  | notFound
  | raised
deriving DecidableEq

def insertAt (l : List Int) (i : Nat) (v : Int) : List Int := l.take i++v::l.drop i

def insertAll (l : List Int) (i : Nat) : List Int → List Int
  | [] => l
  | v::vs => insertAll (insertAt l i v) (i+1) vs

def indexIn (l : List Int) (v : Int) : Nat := if v ∈ l then l.idxOf v else 0

structure Merging where
  mergedl : List Int
  movp : Nat
  lcsOrder : List Int
  topVal : Int

def moveBehind (mergedl : List Int) (movp : Nat) (currentVal : Int) : Except MergeError Nat :=
  if mergedl.length ≤ movp then .ok movp
  else if currentVal ∈ mergedl.drop movp then .ok (movp+(mergedl.drop movp).idxOf currentVal+1)
  else .error .notFound

def mergeStep (isEmpty : Bool) (s : Merging) (currentVal : Int) : Except MergeError Merging :=
  if currentVal=s.topVal ∧ isEmpty=false then
    -- `lcsOrder.remove` raises an exception if the value is not there
    if s.topVal ∈ s.lcsOrder then
      let lcsOrder := s.lcsOrder.erase s.topVal
      (moveBehind s.mergedl s.movp currentVal).map fun movp =>
        { s with movp := movp, lcsOrder := lcsOrder, topVal := lcsOrder.headD s.topVal }
    else .error .raised
  else .ok { s with mergedl := insertAt s.mergedl s.movp currentVal, movp := s.movp+1 }

def mergeAlong (basel insl : List Int) (firstLcsVal : Int) (lcsOrder : List Int) : Except MergeError (List Int) :=
  let firstSet := insl.takeWhile (· ≠ firstLcsVal)
  let index := indexIn basel firstLcsVal
  let start : Merging := ⟨insertAll basel index firstSet,index+firstSet.length+1,lcsOrder,lcsOrder.headD 0⟩
  ((insl.drop (indexIn insl firstLcsVal+1)).foldlM (mergeStep lcsOrder.isEmpty) start).map Merging.mergedl
variable (lcs : List Int → List Int → List (List Int)) (l1 l2 : List Int)
def merge : Except MergeError (List Int) :=
  if lcs l1 l2=[[]] then .ok (l1++l2)
  else
    match lcs l1 l2 with
    | (firstLcsVal::lcsOrder)::_ =>
      if l2.length≤l1.length then mergeAlong l1 l2 firstLcsVal lcsOrder
      else mergeAlong l2 l1 firstLcsVal lcsOrder
    | _ => .error .raised

theorem insertAt_append (l r : List Int) (v : Int) : insertAt (l++r) l.length v=l++[v]++r := by simp [insertAt]

theorem insertAll_append (l r vs : List Int) : insertAll (l++r) l.length vs=l++vs++r := by
  induction vs generalizing l with
  | nil => simp [insertAll]
  | cons v vs ih =>
    have h := ih (l++[v])
    rw [length_append,length_singleton] at h
    rw [insertAll,insertAt_append,h]
    simp
variable {l r : List Int} {v : Int}
theorem idxOf_append (hv : v ∉ l) : (l++v::r).idxOf v=l.length := by
  rw [idxOf_append_of_notMem hv,idxOf_cons_self,Nat.add_zero]

theorem indexIn_append (hv : v ∉ l) : indexIn (l++v::r) v=l.length := by rw [indexIn,if_pos (by simp),idxOf_append hv]

theorem moveBehind_append {d l r : List Int} {v : Int} (hv : v ∉ l) :
    moveBehind (d++(l++v::r)) d.length v=.ok (d++l++[v]).length := by
  have hshort : ¬(d++(l++v::r)).length≤d.length := by
    rw [length_append,length_append,length_cons]
    omega
  rw [moveBehind,if_neg hshort,drop_left,if_pos (by simp),idxOf_append hv]
  simp only [length_append,length_singleton]

theorem sublist_behind {vs s t : List Int} (hs : v ∉ s) (h : (v::vs).Sublist (s++v::t)) : vs.Sublist t := by
  induction s with
  | nil => exact cons_sublist_cons.mp h
  | cons a s ih =>
    rw [mem_cons,not_or] at hs
    exact ih hs.2 (List.Sublist.of_cons_of_ne hs.1 h)

def behind : List Int → List Int → List Int
  | [], l => l
  | _, [] => []
  | v::vs, a::l => if a=v then behind vs l else behind (v::vs) l

theorem append_behind_sublist {vs l : List Int} (h : vs.Sublist l) : (vs++behind vs l).Sublist l := by
  induction l generalizing vs with
  | nil => simp [sublist_nil.mp h,behind]
  | cons a l ih =>
    cases vs with
    | nil => exact .refl _
    | cons v vs =>
      rw [behind]
      split_ifs with hav
      · subst hav
        exact (ih (cons_sublist_cons.mp h)).cons_cons a
      · exact (ih (.of_cons_of_ne (Ne.symm hav) h)).cons a

structure Matchable (isEmpty : Bool) (topVal : Int) (vs rest insl : List Int) : Prop where
  inRest : vs.Sublist rest
  inInsl : vs.Sublist insl
  top : ∀ v ∈ vs.head?, topVal=v
  flag : isEmpty → vs=[]

/-- `topVal` stays the last value of the subsequence, and the flag does not tell that it is used up. -/
def Stale (isEmpty : Bool) (topVal : Int) (vs insl : List Int) : Prop :=
  isEmpty=false ∧ vs.getLastD topVal ∈ behind vs insl

theorem mergeStep_match {d l r vs : List Int} {c : Int} (hl : c ∉ l) :
    mergeStep false ⟨d++(l++c::r),d.length,c::vs,c⟩ c = .ok ⟨d++l++[c]++r,(d++l++[c]).length,vs,vs.headD c⟩ := by
  rw [mergeStep,if_pos ⟨rfl,rfl⟩,if_pos mem_cons_self]
  rw [moveBehind_append hl,erase_cons_head]
  simp [Except.map]

theorem mergeStep_insert {isEmpty : Bool} {d rest vs : List Int} {c topVal : Int} (h : ¬(c=topVal ∧ isEmpty=false)) :
    mergeStep isEmpty ⟨d++rest,d.length,vs,topVal⟩ c = .ok ⟨d++[c]++rest,(d++[c]).length,vs,topVal⟩ := by
  rw [mergeStep,if_neg h,insertAt_append,length_append,length_singleton]

theorem getLastD_headD (vs : List Int) (c : Int) : vs.getLastD (vs.headD c)=vs.getLastD c := by cases vs <;> rfl

theorem foldlM_mergeStep {isEmpty : Bool} {d rest vs insl : List Int} {topVal : Int}
    (h : Matchable isEmpty topVal vs rest insl) :
    (Stale isEmpty topVal vs insl ∧ insl.foldlM (mergeStep isEmpty) ⟨d++rest,d.length,vs,topVal⟩=.error .raised) ∨
    (¬Stale isEmpty topVal vs insl ∧
      ∃ t movp lcsOrder topVal', insl.foldlM (mergeStep isEmpty) ⟨d++rest,d.length,vs,topVal⟩ =
        .ok ⟨d++t,movp,lcsOrder,topVal'⟩ ∧
      rest.Sublist t ∧ insl.Sublist t ∧ t.length+vs.length=rest.length+insl.length) := by
  induction insl generalizing d rest vs topVal with
  | nil =>
    have hvs : vs=[] := sublist_nil.mp h.inInsl
    subst hvs
    exact .inr ⟨fun h => not_mem_nil h.2,rest,_,_,_,rfl,List.Sublist.refl rest,nil_sublist rest,rfl⟩
  | cons c insl ih =>
    by_cases hmatch : c=topVal ∧ isEmpty=false
    · obtain ⟨rfl,rfl⟩ := hmatch
      cases vs with
      | nil => exact .inl ⟨⟨rfl,mem_cons_self⟩,by simp [mergeStep]; rfl⟩
      | cons v vs =>
        obtain rfl : c=v := h.top v rfl
        obtain ⟨l,r,rfl,hl⟩ := eq_append_cons_of_mem (h.inRest.subset mem_cons_self)
        have hnext : Matchable false (vs.headD c) vs r insl := by
          refine ⟨sublist_behind hl h.inRest,cons_sublist_cons.mp h.inInsl,?_,fun h => by cases h⟩
          rintro w hw
          cases vs with
          | nil => cases hw
          | cons x xs => exact Option.some.inj hw
        have hstale : Stale false c (c::vs) (c::insl) ↔ Stale false (vs.headD c) vs insl := by
          rw [Stale,Stale,behind,if_pos rfl,getLastD_headD,getLastD_cons]
        rw [foldlM_cons,mergeStep_match hl,hstale]
        refine (ih (d := d++l++[c]) hnext).imp id ?_
        rintro ⟨hfresh,t,movp,lcsOrder,topVal',hrun,hr,hi,hlength⟩
        refine ⟨hfresh,l++c::t,movp,lcsOrder,topVal',?_,?_,?_,?_⟩
        · refine Eq.trans hrun ?_
          simp
        · exact (hr.cons_cons c).append_left l
        · exact (hi.cons_cons c).trans (sublist_append_right l _)
        · simp only [length_append,length_cons]
          omega
    · have hskip : vs.Sublist insl ∧ (Stale isEmpty topVal vs (c::insl) ↔ Stale isEmpty topVal vs insl) := by
        cases vs with
        | nil =>
          refine ⟨nil_sublist insl,and_congr_right fun hflag => ?_⟩
          rw [behind,behind,getLastD_nil,mem_cons]
          exact or_iff_right fun htop => hmatch ⟨htop.symm,hflag⟩
        | cons v vs =>
          have hflag : isEmpty=false := by
            cases hisEmpty : isEmpty with
            | false => rfl
            | true => cases h.flag hisEmpty
          have hne : c≠v := fun hcv => hmatch ⟨hcv.trans (h.top v rfl).symm,hflag⟩
          rw [Stale,behind,if_neg hne]
          exact ⟨.of_cons_of_ne hne.symm h.inInsl,Iff.rfl⟩
      rw [foldlM_cons,mergeStep_insert hmatch,hskip.2]
      refine (ih (d := d++[c]) ⟨h.inRest,hskip.1,h.top,h.flag⟩).imp id ?_
      rintro ⟨hfresh,t,movp,lcsOrder,topVal',hrun,hr,hi,hlength⟩
      refine ⟨hfresh,c::t,movp,lcsOrder,topVal',?_,hr.cons c,hi.cons_cons c,?_⟩
      · refine Eq.trans hrun ?_
        simp
      · simp only [length_cons]
        omega

theorem takeWhile_append (hv : v ∉ l) : (l++v::r).takeWhile (· ≠ v)=l := by
  rw [takeWhile_append_of_pos,takeWhile_cons_of_neg (by simp),append_nil]
  intro a ha
  have hav : a≠v := fun h => hv (h ▸ ha)
  simpa using hav

theorem matchable_start {vs l r : List Int} (hr : vs.Sublist r) (hl : vs.Sublist l) :
    Matchable vs.isEmpty (vs.headD v) vs r l := by
  refine ⟨hr,hl,?_,isEmpty_iff.mp⟩
  intro w hw
  cases vs with
  | nil => cases hw
  | cons x xs => exact Option.some.inj hw

theorem behind_append {f i vs : List Int} (hf : v ∉ f) : behind (v::vs) (f++v::i)=behind vs i := by
  induction f with
  | nil => exact if_pos rfl
  | cons a f ih =>
    rw [mem_cons,not_or] at hf
    exact (if_neg (Ne.symm hf.1)).trans (ih hf.2)

/-- The last value of the subsequence comes again behind it; it is not the first one. -/
def Repeats (z insl : List Int) : Prop := z.tail≠[] ∧ z.getLastD 0 ∈ behind z insl

theorem not_repeats {z insl : List Int} (hz : z.Sublist insl) (hinsl : insl.Nodup) : ¬Repeats z insl := by
  have hnodup := hinsl.sublist (append_behind_sublist hz)
  rintro ⟨hne,hmem⟩
  cases z with
  | nil => exact hne rfl
  | cons v vs => exact (nodup_append.mp hnodup).2.2 _ getLastD_mem_cons _ hmem getLastD_cons.symm

theorem stale_start {f i vs : List Int} (hf : v ∉ f) :
    Stale vs.isEmpty (vs.headD 0) vs i ↔ Repeats (v::vs) (f++v::i) := by
  rw [Stale,Repeats,behind_append hf,getLastD_headD,tail_cons]
  cases vs with
  | nil => simp
  | cons x xs => simp

theorem mergeAlong_spec {basel insl vs : List Int} {v : Int} (h : IsCommon (v::vs) basel insl) :
    (Repeats (v::vs) insl ∧ mergeAlong basel insl v vs=.error .raised) ∨
    (¬Repeats (v::vs) insl ∧ ∃ m, mergeAlong basel insl v vs=.ok m ∧ basel.Sublist m ∧ insl.Sublist m ∧
      m.length+(v::vs).length=basel.length+insl.length) := by
  obtain ⟨l,r,rfl,hl⟩ := eq_append_cons_of_mem (h.1.subset mem_cons_self)
  obtain ⟨f,i,rfl,hf⟩ := eq_append_cons_of_mem (h.2.subset mem_cons_self)
  have hmerge : mergeAlong (l++v::r) (f++v::i) v vs=(i.foldlM (mergeStep vs.isEmpty)
      ⟨l++f++[v]++r,(l++f++[v]).length,vs,vs.headD 0⟩).map Merging.mergedl := by
    have hstart : l.length+f.length+1=(l++f++[v]).length := by simp [Nat.add_assoc]
    have hdrop : (f++v::i).drop (f.length+1)=i := by simp
    have hmerged : l++f++v::r=l++f++[v]++r := by simp
    rw [mergeAlong,takeWhile_append hf,indexIn_append hl,indexIn_append hf,insertAll_append,hmerged,hstart,hdrop]
  rw [hmerge,← stale_start hf]
  rcases foldlM_mergeStep (d := l++f++[v])
    (matchable_start (v := 0) (sublist_behind hl h.1) (sublist_behind hf h.2)) with
    ⟨hstale,hrun⟩ | ⟨hfresh,t,movp,lcsOrder,topVal,hrun,hr,hi,hlength⟩
  · exact .inl ⟨hstale,by rw [hrun]; rfl⟩
  · refine .inr ⟨hfresh,l++f++[v]++t,by rw [hrun]; rfl,?_,?_,?_⟩
    · have hcons := hr.cons_cons v
      simpa using (hcons.trans (sublist_append_right f (v::t))).append_left l
    · have hcons := (hi.cons_cons v).append_left f
      simpa using hcons.trans (sublist_append_right l (f++v::t))
    · simp only [length_append,length_cons,length_nil]
      omega

/-- A list of distinct longest common subsequences starts with the empty one only if it is the only
one. -/
theorem lists_cases {lcs : List Int → List Int → List (List Int)} (h : LcsSpec lcs) (l1 l2 : List Int) :
    (lcs l1 l2=[[]] ∧ IsLongest [] l1 l2) ∨ ∃ v vs zs, lcs l1 l2=(v::vs)::zs ∧ IsLongest (v::vs) l1 l2 := by
  obtain ⟨hne,hnodup,hlongest⟩ := h l1 l2
  obtain ⟨z,zs,hlists⟩ := exists_cons_of_ne_nil hne
  rw [hlists] at hnodup hlongest ⊢
  have hz := hlongest z mem_cons_self
  cases z with
  | cons v vs => exact Or.inr ⟨v,vs,zs,rfl,hz⟩
  | nil =>
    left
    have hzs : zs=[] := by
      rw [eq_nil_iff_forall_not_mem]
      intro y hy
      have hlength := (hlongest y (mem_cons_of_mem _ hy)).length_eq hz
      rw [eq_nil_of_length_eq_zero hlength] at hy
      exact (nodup_cons.mp hnodup).1 hy
    exact ⟨by rw [hzs],hz⟩

def Merges : Prop :=
  ∃ m z, merge lcs l1 l2=.ok m ∧ IsLongest z l1 l2 ∧ l1.Sublist m ∧ l2.Sublist m ∧ m.length+z.length=l1.length+l2.length

def RepeatsLast : Prop := Repeats ((lcs l1 l2).headD []) (if l2.length≤l1.length then l2 else l1)
variable {lcs : List Int → List Int → List (List Int)} {l1 l2 : List Int}
theorem merges_cases (hlcs : LcsSpec lcs) :
    (RepeatsLast lcs l1 l2 ∧ merge lcs l1 l2=.error .raised) ∨ (¬RepeatsLast lcs l1 l2 ∧ Merges lcs l1 l2) := by
  rcases lists_cases hlcs l1 l2 with ⟨hlists,hz⟩ | ⟨v,vs,zs,hlists,hz⟩
  · refine .inr ⟨by simp [RepeatsLast,Repeats,hlists],l1++l2,[],?_,hz,sublist_append_left l1 l2,
      sublist_append_right l1 l2,by simp⟩
    rw [merge,if_pos hlists]
  · have hne : (v::vs)::zs≠[[]] := by simp
    rw [RepeatsLast,Merges,merge,hlists,if_neg hne]
    dsimp only [headD_cons]
    split_ifs
    · refine (mergeAlong_spec hz.1).imp id fun ⟨hlast,m,hm,hbase,hins,hlength⟩ => ?_
      exact ⟨hlast,m,v::vs,hm,hz,hbase,hins,hlength⟩
    · refine (mergeAlong_spec hz.1.symm).imp id fun ⟨hlast,m,hm,hbase,hins,hlength⟩ => ?_
      exact ⟨hlast,m,v::vs,hm,hz,hins,hbase,by omega⟩

theorem merge_spec (hlcs : LcsSpec lcs) (h1 : l1.Nodup) (h2 : l2.Nodup) : Merges lcs l1 l2 := by
  have hcommon : IsCommon ((lcs l1 l2).headD []) l1 l2 := by
    obtain ⟨hne,-,hlongest⟩ := hlcs l1 l2
    obtain ⟨z,zs,hlists⟩ := exists_cons_of_ne_nil hne
    rw [hlists] at hlongest ⊢
    exact (hlongest z mem_cons_self).1
  refine (merges_cases hlcs).elim (fun h => absurd h.1 ?_) And.right
  unfold RepeatsLast
  split_ifs
  · exact not_repeats hcommon.2 h2
  · exact not_repeats hcommon.1 h1

/-- `merge` is right exactly if the last value of the common subsequence does not come again behind it. -/
theorem merges_iff (hlcs : LcsSpec lcs) (l1 l2 : List Int) : Merges lcs l1 l2 ↔ ¬RepeatsLast lcs l1 l2 := by
  rcases merges_cases hlcs with ⟨hlast,hraised⟩ | ⟨hlast,hmerges⟩
  · refine ⟨fun ⟨m,_,hm,_⟩ => ?_,absurd hlast⟩
    rw [hraised] at hm
    cases hm
  · exact ⟨fun _ => hlast,fun _ => hmerges⟩

theorem repeated_nfs_merged : Merges P4sc.lcs [1,2,1] [2,1,3,1] :=
  (merges_iff lcs_spec _ _).mpr (by unfold RepeatsLast Repeats; decide)

/-- The second 2 is taken for the one of the subsequence again. -/
theorem last_nf_repeated : merge P4sc.lcs [1,2,3] [1,2,2]=.error .raised := by decide
end P4Benchmarks.P4sc
