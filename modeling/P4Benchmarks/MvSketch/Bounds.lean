import Mathlib.Algebra.Order.BigOperators.Group.List
import P4Benchmarks.Lib.BucketQueue
import P4Benchmarks.Lib.MajorityVote
import P4Benchmarks.MvSketch.Sketch
/-!
# The bounds of MV-Sketch

Every bucket is a weighted majority vote of the keys that are hashed to it.  A bucket whose key
starts with a zero byte counts as empty.
-/
namespace P4Benchmarks.MvSketch
open Lib List Function Params
variable {p : Params}
theorem intOf_eq {x : Int} (hle : -2^31≤x) (hlt : x<2^31) : intOf x=x := by
  rw [intOf,Int.bmod_def]
  omega

theorem longOf_eq {x : Int} (hle : -2^63≤x) (hlt : x<2^63) : longOf x=x := by
  rw [longOf,Int.bmod_def]
  omega
section Weights
variable {updates : List (p.Key × Int)} {key x : p.Key} {v : Int}
theorem weightOf_concat : weightOf (updates++[(key,v)]) x=weightOf updates x + if key=x then v else 0 := by
  rw [weightOf,weightOf,filter_append,map_append,sum_append]
  by_cases h : key=x <;> simp [h]

theorem totalWeight_concat : totalWeight (updates++[(key,v)])=totalWeight updates+v := by simp [totalWeight]

def cellWeight (i c : Nat) (updates : List (p.Key × Int)) (x : p.Key) : Int :=
  if p.bucket i x=c then weightOf updates x else 0

theorem cellWeight_concat_self {i : Nat} : cellWeight i (p.bucket i key) (updates++[(key,v)]) =
      Function.update (cellWeight i (p.bucket i key) updates) key (cellWeight i (p.bucket i key) updates key+v) := by
  funext x
  by_cases hx : x=key
  · rw [hx,update_self,cellWeight,cellWeight,if_pos rfl,if_pos rfl,weightOf_concat,
      if_pos rfl]
  · have hne : ¬key=x := fun h => hx h.symm
    rw [update_of_ne hx,cellWeight,cellWeight,weightOf_concat,if_neg hne,Int.add_zero]

theorem cellWeight_concat_ne {i c : Nat} (hc : c≠p.bucket i key) :
    cellWeight i c (updates++[(key,v)])=cellWeight i c updates := by
  funext x
  rw [cellWeight,cellWeight,weightOf_concat]
  by_cases hx : key=x
  · rw [← hx,if_neg (Ne.symm hc),if_neg (Ne.symm hc)]
  · rw [if_neg hx,Int.add_zero]
end Weights
namespace SBucket
variable {b : SBucket p} {f : p.Key → Int} {total : Int} {key : p.Key} {v : Int}
def ballot (b : SBucket p) : Ballot p.Key := ⟨b.key,b.count,b.sum⟩

/-- The bucket has seen the weights `f`, of at most `total`; as long as no key starts with a zero
byte, a bucket that counts as empty is empty. -/
structure Sound (f : p.Key → Int) (total : Int) (b : SBucket p) : Prop where
  sum_le : b.sum≤total
  empty : firstByte b.key=0 → b=.init ∧ ∀ x, f x=0
  counts : firstByte b.key≠0 → b.ballot.Counts f

theorem firstByte_zero : firstByte (fun _ => 0 : p.Key)=0 := by
  rw [firstByte]
  split <;> rfl

theorem sound_init (hf : ∀ x, f x=0) : (init : SBucket p).Sound f 0 where
  sum_le := le_rfl
  empty _ := ⟨rfl,hf⟩
  counts h := absurd firstByte_zero h

theorem Sound.mono {total' : Int} (h : b.Sound f total) (hle : total≤total') : b.Sound f total' :=
  ⟨h.sum_le.trans hle,h.empty,h.counts⟩

theorem Sound.update (h : b.Sound f total) (hkey : firstByte key≠0) (hv : 0<v) (hlt : total+v<2^31) :
    (b.update key v).Sound (Function.update f key (f key+v)) (total+v) := by
  have hsum := h.sum_le
  by_cases hempty : firstByte b.key=0
  · obtain ⟨rfl,hzero⟩ := h.empty hempty
    have heq : (init : SBucket p).update key v=⟨v,v,key⟩ := by
      change (0 : Int)≤total at hsum
      rw [SBucket.update,if_pos hempty]
      show SBucket.mk (intOf (0+v)) v key=_
      rw [intOf_eq (by omega) (by omega),Int.zero_add]
    rw [heq,hzero,Int.zero_add]
    refine ⟨?_,fun h0 => absurd h0 hkey,fun _ => Ballot.counts_first hzero hv.le⟩
    change (0 : Int)≤total at hsum
    dsimp only
    omega
  · have hcounts := h.counts hempty
    have hnonneg : 0≤b.count := hcounts.margin_nonneg
    have hle : b.count≤b.sum := hcounts.margin_le_sum
    have hvote := hcounts.vote (k := key) hv.le
    have heq : (b.update key v).ballot=b.ballot.vote key v := by
      rw [SBucket.update,if_neg hempty,longOf_eq (by omega) (by omega),
        longOf_eq (x := b.count-v) (by omega) (by omega),intOf_eq (by omega) (by omega),
        longOf_eq (x := -(b.count-v)) (by omega) (by omega),Ballot.vote]
      change _ = if key=b.key then _ else if b.count<v then _ else _
      by_cases hsame : key=b.key
      · rw [if_pos hsame,if_pos hsame]
        rfl
      · rw [if_neg hsame,if_neg hsame]
        by_cases htake : b.count<v
        · rw [if_pos (by omega),if_pos htake,ballot,Int.neg_sub]
          rfl
        · rw [if_neg (by omega),if_neg htake]
          rfl
    refine ⟨?_,fun hzero => ?_,fun _ => ?_⟩
    · have hvoted := (congrArg Ballot.sum heq).trans (b.ballot.sum_vote key v)
      change (b.update key v).sum=b.sum+v at hvoted
      omega
    · have hcand := b.ballot.cand_vote key v
      rw [← heq] at hcand
      change (b.update key v).key=b.key ∨ (b.update key v).key=key at hcand
      rcases hcand with hcand | hcand
      · exact absurd (hcand ▸ hzero) hempty
      · exact absurd (hcand ▸ hzero) hkey
    · rw [heq]
      exact hvote

theorem Sound.key_eq {x : p.Key} (h : b.Sound f total) (hmost : b.sum<2*f x) : b.key=x ∧ f x≤b.sum := by
  have hnonempty : firstByte b.key≠0 := by
    intro hzero
    obtain ⟨rfl,hnone⟩ := h.empty hzero
    rw [hnone x] at hmost
    exact absurd hmost (Int.lt_irrefl 0)
  obtain ⟨-,hmargin,hle,hcand,hother⟩ := h.counts hnonempty
  dsimp only [ballot] at *
  by_cases hx : x=b.key
  · subst hx
    exact ⟨rfl,by omega⟩
  · have hlt := hother x hx
    omega

theorem Sound.estimates (h : b.Sound f total) (hlt : total<2^31) (x : p.Key) : b.lowest x≤f x ∧ f x≤b.upest x := by
  have hsum := h.sum_le
  rw [lowest,upest]
  by_cases hempty : firstByte b.key=0
  · obtain ⟨rfl,hzero⟩ := h.empty hempty
    rw [hzero]
    split_ifs
    · change intOf 0≤0 ∧ 0 ≤ intOf (longOf ((longOf (0-0)).tdiv 2+0))
      decide
    · change (0 : Int)≤0 ∧ 0 ≤ intOf ((longOf (0-0)).tdiv 2)
      decide
  · have hcounts := h.counts hempty
    have hnonneg : 0≤b.count := hcounts.margin_nonneg
    have hle : b.count≤b.sum := hcounts.margin_le_sum
    have hcand := hcounts.cand_le
    have hmargin := hcounts.margin_le
    have hx := hcounts.nonneg x
    have hother := hcounts.other_le x
    dsimp only [ballot] at hcand hmargin hother
    have hdiv : (b.sum-b.count).tdiv 2=(b.sum-b.count)/2 := Int.tdiv_eq_ediv_of_nonneg (by omega)
    rw [longOf_eq (x := b.sum-b.count) (by omega) (by omega),hdiv]
    split_ifs with hkey
    · rw [intOf_eq (by omega) (by omega),longOf_eq (by omega) (by omega),
        intOf_eq (by omega) (by omega),hkey]
      omega
    · have := hother hkey
      rw [intOf_eq (by omega) (by omega)]
      omega
end SBucket
namespace MVSketch
variable {s : MVSketch p} {key : p.Key} {v : Int} {i c : Nat}
theorem bucket_lt (p : Params) (i : Nat) (key : p.Key) : p.bucket i key<p.width := Nat.mod_lt _ p.width_pos

theorem foldl_updateRow (counts : Nat → SBucket p) (key : p.Key) (v : Int) (n : Nat) (hc : c<p.width) :
    (List.range n).foldl (fun counts i => updateRow counts key v i) counts (i*p.width+c) =
      if i<n ∧ c=p.bucket i key then (counts (i*p.width+c)).update key v
      else counts (i*p.width+c) := by
  induction n with
  | zero => simp
  | succ n ih =>
    rw [range_succ,foldl_append,foldl_cons,foldl_nil,updateRow]
    by_cases hin : i=n ∧ c=p.bucket n key
    · obtain ⟨rfl,rfl⟩ := hin
      rw [index,update_self,ih,if_neg (by omega),if_pos ⟨by omega,rfl⟩]
    · have hne : i*p.width+c≠p.index n key := by
        intro heq
        exact hin (by
          obtain ⟨rfl,rfl⟩ := row_index_inj hc (bucket_lt p n key) heq
          exact ⟨rfl,rfl⟩)
      rw [update_of_ne hne,ih]
      by_cases hi : i=n
      · subst hi
        have hcne : c≠p.bucket i key := fun h => hin ⟨rfl,h⟩
        rw [if_neg (by omega),if_neg fun h => hcne h.2]
      · have hlt : i<n+1 ↔ i<n := by omega
        simp [hlt]

theorem counts_update (hi : i<p.depth) (hc : c<p.width) : (s.update key v).counts (i*p.width+c) =
      if c=p.bucket i key then (s.counts (i*p.width+c)).update key v
      else s.counts (i*p.width+c) := by
  refine (foldl_updateRow s.counts key v p.depth hc).trans ?_
  simp [hi,true_and]
variable (updates : List (p.Key × Int))
theorem updateAll_concat (key : p.Key) (v : Int) : updateAll (updates++[(key,v)])=(updateAll updates).update key v := by
  rw [updateAll,foldl_append]
  rfl

theorem updateAll_sound (hkeys : ∀ u ∈ updates, firstByte u.1≠0 ∧ 0<u.2) (hlt : totalWeight updates<2^31)
    (hi : i<p.depth) (hc : c<p.width) :
    ((updateAll updates).counts (i*p.width+c)).Sound (cellWeight i c updates) (totalWeight updates) := by
  induction updates using List.reverseRecOn with
  | nil =>
    refine SBucket.sound_init fun x => ?_
    rw [cellWeight]
    split_ifs <;> rfl
  | append_singleton updates u ih =>
    obtain ⟨key,v⟩ := u
    obtain ⟨hkey,hv⟩ := hkeys (key,v) (by simp)
    rw [totalWeight_concat] at hlt ⊢
    have hsound := ih (fun u hu => hkeys u (by simp [hu])) (by omega)
    rw [updateAll_concat,counts_update hi hc]
    split_ifs with hbucket
    · subst hbucket
      rw [cellWeight_concat_self]
      exact hsound.update hkey hv hlt
    · rw [cellWeight_concat_ne hbucket]
      exact hsound.mono (by omega)

theorem lowEstimate_le {w : Int} (hw : 0≤w)
    (h : ∀ i<p.depth, (s.counts (p.index i key)).lowest key≤w) : s.lowEstimate key≤w := by
  have hrows : ∀ n≤p.depth, (List.range n).foldl
      (fun ret i => max ret ((s.counts (p.index i key)).lowest key)) 0≤w := by
    intro n hn
    induction n with
    | zero => exact hw
    | succ n ih =>
      have hrow := h n (by omega)
      have hrest := ih (by omega)
      rw [range_succ,foldl_append,foldl_cons,foldl_nil]
      exact Int.max_le.mpr ⟨hrest,hrow⟩
  exact hrows p.depth le_rfl

theorem le_upEstimate {w : Int} (hdepth : 0<p.depth)
    (h : ∀ i<p.depth, w≤(s.counts (p.index i key)).upest key) : w ≤ s.upEstimate key := by
  have hrows : ∀ n≤p.depth, 0<n → w≤(List.range n).foldl (fun ret i =>
        if i=0 then (s.counts (p.index i key)).upest key
        else min ret ((s.counts (p.index i key)).upest key)) 0 := by
    intro n hn hpos
    induction n with
    | zero => exact absurd hpos (Nat.lt_irrefl 0)
    | succ n ih =>
      have hrow := h n (by omega)
      rw [range_succ,foldl_append,foldl_cons,foldl_nil]
      split_ifs with hn0
      · exact hrow
      · exact Int.le_min.mpr ⟨ih (by omega) (by omega),hrow⟩
  exact hrows p.depth le_rfl hdepth

theorem weightOf_nonneg (hpos : ∀ u ∈ updates, 0<u.2) : 0≤weightOf updates key := by
  refine sum_nonneg fun x hx => ?_
  obtain ⟨u,hu,rfl⟩ := mem_map.mp hx
  exact (hpos u (mem_of_mem_filter hu)).le

theorem counts_twice (hkey : firstByte key=0) (hi : i<p.depth) :
    (updateAll [(key,2),(key,2)]).counts (p.index i key)=⟨4,2,key⟩ := by
  have hfirst : ((init : MVSketch p).update key 2).counts (p.index i key)=⟨2,2,key⟩ := by
    rw [index,counts_update hi (bucket_lt p i key),if_pos rfl]
    exact if_pos SBucket.firstByte_zero
  change (((init : MVSketch p).update key 2).update key 2).counts (p.index i key)=_
  rw [index,counts_update hi (bucket_lt p i key),if_pos rfl]
  rw [index] at hfirst
  rw [hfirst]
  exact if_pos hkey

theorem upEstimate_le {w : Int} (hdepth : 0<p.depth)
    (h : ∀ i<p.depth, (s.counts (p.index i key)).upest key≤w) : s.upEstimate key≤w := by
  obtain ⟨n,hn⟩ : ∃ n, p.depth=n+1 := Nat.exists_eq_succ_of_ne_zero (Nat.ne_of_gt hdepth)
  have hrow := h n (by omega)
  rw [upEstimate,hn,range_succ,foldl_append,foldl_cons,foldl_nil]
  split_ifs
  · exact hrow
  · exact (Int.min_le_right _ _).trans hrow

/-- The bounds hold for all streams of positive weights over a set of keys exactly if there is a row
and no key of the set starts with a zero byte. -/
theorem estimates_iff (p : Params) (keys : p.Key → Prop) :
    (∀ updates : List (p.Key × Int), (∀ u ∈ updates, keys u.1 ∧ 0<u.2) → totalWeight updates<2^31 → ∀ key : p.Key,
        (updateAll updates).lowEstimate key≤weightOf updates key ∧
          weightOf updates key≤(updateAll updates).upEstimate key) ↔
      ∀ key, keys key → 0<p.depth ∧ firstByte key≠0 := by
  constructor
  · intro h key hkey
    have hdepth : 0<p.depth := by
      by_contra hzero
      have hup := (h [(key,1)] (by simpa using hkey) (by simp [totalWeight]) key).2
      rw [upEstimate,Nat.eq_zero_of_not_pos hzero] at hup
      simp [weightOf] at hup
    refine ⟨hdepth,fun hzero => ?_⟩
    have hup := (h [(key,2),(key,2)] (by simpa using hkey) (by simp [totalWeight]) key).2
    have hle : (updateAll [(key,2),(key,2)]).upEstimate key≤3 := by
      refine upEstimate_le hdepth fun i hi => ?_
      rw [counts_twice hzero hi,SBucket.upest,if_pos rfl]
      change intOf (longOf ((longOf (4-2)).tdiv 2+2))≤3
      decide
    have hweight : weightOf [(key,2),(key,2)] key=4 := by simp [weightOf]
    omega
  · intro h updates hupdates hlt key
    have hkeys : ∀ u ∈ updates, firstByte u.1≠0 ∧ 0<u.2 := fun u hu =>
      ⟨(h u.1 (hupdates u hu).1).2,(hupdates u hu).2⟩
    have hrow (i : Nat) (hi : i<p.depth) :
        ((updateAll updates).counts (p.index i key)).lowest key≤weightOf updates key ∧
          weightOf updates key≤((updateAll updates).counts (p.index i key)).upest key := by
      have hcell : cellWeight i (p.bucket i key) updates key=weightOf updates key := if_pos rfl
      rw [← hcell]
      exact (updateAll_sound updates hkeys hlt hi (bucket_lt p i key)).estimates hlt key
    refine ⟨lowEstimate_le (weightOf_nonneg updates fun u hu => (hupdates u hu).2) fun i hi =>
      (hrow i hi).1,?_⟩
    by_cases hdepth : 0<p.depth
    · exact le_upEstimate hdepth fun i hi => (hrow i hi).2
    · -- without rows there are no updates
      have hnil : updates=[] := by
        rw [eq_nil_iff_forall_not_mem]
        exact fun u hu => hdepth (h u.1 (hupdates u hu).1).1
      rw [hnil,upEstimate,Nat.eq_zero_of_not_pos hdepth]
      exact le_rfl

private def oneCell : Params := ⟨1,1,1,Nat.one_pos,fun _ _ => 0⟩

theorem zeroByte_underestimated : totalWeight (p := oneCell) [(fun _ => 0,2),(fun _ => 0,2)]<2^31 ∧
      ¬weightOf (p := oneCell) [(fun _ => 0,2),(fun _ => 0,2)] (fun _ => 0) ≤
        (updateAll (p := oneCell) [(fun _ => 0,2),(fun _ => 0,2)]).upEstimate fun _ => 0 := by
  decide +kernel

/-- `Query` reports every key above the threshold that has more than half of the weight in one of
its buckets. -/
theorem query_complete (hkeys : ∀ u ∈ updates, firstByte u.1≠0 ∧ 0<u.2)
    (hlt : totalWeight updates<2^31) {thresh : Int} {key : p.Key} (hheavy : thresh<weightOf updates key) {i : Nat}
    (hi : i<p.depth) (hmost : ((updateAll updates).counts (p.index i key)).sum<2*weightOf updates key) :
    (key,(updateAll updates).upEstimate key) ∈ (updateAll updates).query thresh := by
  have hsound (j : Nat) (hj : j<p.depth) := updateAll_sound _ hkeys hlt hj (bucket_lt p j key)
  have hweight (j : Nat) : cellWeight j (p.bucket j key) updates key=weightOf updates key := if_pos rfl
  have hup : weightOf updates key≤(updateAll updates).upEstimate key :=
    le_upEstimate (Nat.zero_lt_of_lt hi) fun j hj => hweight j ▸ ((hsound j hj).estimates hlt key).2
  obtain ⟨hkey,hsum⟩ := (hsound i hi).key_eq ((hweight i).symm ▸ hmost)
  rw [hweight] at hsum
  have hindex : p.index i key<p.width*p.depth := by
    refine Nat.lt_of_lt_of_le (Nat.add_lt_add_left (bucket_lt p i key) _) ?_
    rw [←Nat.succ_mul,Nat.mul_comm]
    exact Nat.mul_le_mul_left _ hi
  simp only [query,mem_filter,mem_map,mem_eraseDups,mem_range,decide_eq_true_eq]
  exact ⟨⟨key,⟨_,⟨hindex,lt_of_lt_of_le hheavy hsum⟩,hkey⟩,rfl⟩,lt_of_lt_of_le hheavy hup⟩

private def competing : List (oneCell.Key × Int) := [(fun _ => 1,3),(fun _ => 2,2),(fun _ => 1,1)]

/-- Two keys compete for the only bucket. -/
theorem query_competing : (fun _ => 1,4) ∈ (updateAll competing).query 2 :=
  query_complete _ (by decide) (by decide) (by decide) Nat.one_pos (by decide)
end MVSketch
end P4Benchmarks.MvSketch
