import P4Benchmarks.Elastic.Flows
/-!
# ElasticSketch never under-estimates

For every key but zero, a query returns at least the number of inserts.  The zero key is lost when
its bucket is full: it matches the lane of the guard counter, which no query reads.
-/
namespace P4Benchmarks.Elastic
open List BitVec Function Lib
namespace LightPart
variable {l : LightPart} {pos q : Nat} {f v : BitVec 32}
theorem toNat_saturate (hv : v.toNat<2^31) : (saturate v).toNat=min v.toNat 255 := by
  have hslt := slt_iff_toNat_lt hv (show (255#32).toNat<2^31 by decide)
  change _ ↔ v.toNat<255 at hslt
  rw [saturate]
  split_ifs with h
  · have := hslt.mp h
    omega
  · have : ¬v.toNat<255 := fun hlt => h (hslt.mpr hlt)
    change 255=_
    omega

def nums (l : LightPart) (q : Nat) : Nat := (l.counters q).toNat

theorem nums_setCounter (hv : v.toNat<256) : (l.setCounter pos v).nums=update l.nums pos v.toNat := by
  funext q
  by_cases hq : q=pos
  · rw [hq,update_self,nums,setCounter]
    simp only [update_self,toNat_setWidth]
    exact Nat.mod_eq_of_lt hv
  · rw [update_of_ne hq,nums,setCounter]
    simp only [update_of_ne hq]
    rfl

theorem nums_insert (hlt : l.nums pos+f.toNat<2^31) :
    (l.insert pos f).nums=update l.nums pos (min (l.nums pos+f.toNat) 255) := by
  have hsum : ((l.counters pos).setWidth 32+f).toNat=l.nums pos+f.toNat := by
    rw [nums] at hlt ⊢
    rw [toNat_add,toNat_setWidth]
    omega
  have hsat := toNat_saturate (hsum ▸ hlt)
  rw [insert,nums_setCounter (by omega),hsat,hsum]

theorem nums_swapInsert (hlt : f.toNat<2^31) : (l.swapInsert pos f).nums=update l.nums pos
    (max (l.nums pos) (min f.toNat 255)) := by
  have hc := (l.counters pos).isLt
  have hsat := toNat_saturate hlt
  have hwide : ((l.counters pos).setWidth 32).toNat=l.nums pos := by
    rw [nums,toNat_setWidth]
    omega
  have hsmall : l.nums pos<256 := hc
  have hslt := slt_iff_toNat_lt (show ((l.counters pos).setWidth 32).toNat<2^31 by omega)
    (show (saturate f).toNat<2^31 by omega)
  rw [hwide,hsat] at hslt
  rw [swapInsert]
  split_ifs with h
  · have := hslt.mp h
    rw [nums_setCounter (by omega),hsat,Nat.max_eq_right (by omega)]
  · have : ¬l.nums pos < min f.toNat 255 := fun h' => h (hslt.mpr h')
    rw [Nat.max_eq_left (by omega),update_eq_self]

def weight (l : LightPart) (n : Nat) : Nat := ∑ q ∈ Finset.range n, l.nums q
variable {n : Nat}
theorem nums_le_weight (hq : q<n) : l.nums q≤l.weight n :=
  Finset.single_le_sum (fun _ _ => Nat.zero_le _) (Finset.mem_range.mpr hq)

def Grown (n : Nat) (l l' : LightPart) (k : Nat) : Prop :=
  ∃ pos<n, ∃ c, l'.nums=update l.nums pos c ∧ l.nums pos ≤ c ∧ c≤l.nums pos+k

theorem Grown.mono {n k : Nat} {l' : LightPart} (h : Grown n l l' k) (q : Nat) : l.nums q≤l'.nums q := by
  obtain ⟨pos,-,c,hnums,hle,-⟩ := h
  rw [hnums]
  by_cases hq : q=pos
  · rw [hq,update_self]
    exact hle
  · rw [update_of_ne hq]

theorem Grown.weight_le {n k : Nat} {l' : LightPart} (h : Grown n l l' k) : l'.weight n≤l.weight n+k := by
  obtain ⟨pos,hpos,c,hnums,-,hle⟩ := h
  have hsum := sum_update_add (Finset.mem_range.mpr hpos) l.nums c
  rw [weight,weight,hnums]
  omega

theorem Grown.refl (hn : 0<n) (l : LightPart) : Grown n l l 0 :=
  ⟨0,hn,l.nums 0,(update_eq_self 0 l.nums).symm,le_rfl,le_rfl⟩

theorem nums_lt (l : LightPart) (q : Nat) : l.nums q<256 := (l.counters q).isLt

theorem insert_spec (hpos : pos<n) (hlt : l.nums pos+f.toNat<2^31) : Grown n l (l.insert pos f) f.toNat ∧
      ((l.insert pos f).nums pos≠255 → (l.insert pos f).nums pos=l.nums pos+f.toNat) := by
  have hc := l.nums_lt pos
  have hnums := nums_insert hlt
  refine ⟨⟨pos,hpos,_,hnums,by omega,by omega⟩,?_⟩
  rw [hnums,update_self]
  omega

theorem swapInsert_spec (hpos : pos<n) (hlt : f.toNat<2^31) : Grown n l (l.swapInsert pos f) f.toNat ∧
      ((l.swapInsert pos f).nums pos≠255 → f.toNat≤(l.swapInsert pos f).nums pos) := by
  have hnums : (l.swapInsert pos f).nums=_ := nums_swapInsert hlt
  refine ⟨⟨pos,hpos,_,hnums,by omega,by omega⟩,?_⟩
  rw [hnums,update_self]
  have hc := l.nums_lt pos
  omega
end LightPart
namespace Sketch
variable {p : Params} {s : Sketch} {key : Key}
def lightOf (p : Params) (l : LightPart) (x : Key) : Nat := l.nums (p.counterPos x)

theorem lightInsert_spec (l : LightPart) (key : Key) (r : HeavyResult) (hlt : l.weight p.counterNum+r.moved<2^31) :
    LightPart.Grown p.counterNum l (lightInsert p l key r) r.moved ∧
      ((∀ q<p.counterNum, (lightInsert p l key r).nums q≠255) →
        Absorbs (lightOf p l) (lightOf p (lightInsert p l key r)) key r) := by
  have hle (x : Key) : l.nums (p.counterPos x)≤l.weight p.counterNum :=
    LightPart.nums_le_weight (p.counterPos_lt x)
  cases r with
  | stored => exact ⟨.refl p.counterNum_pos l,fun _ => ⟨fun _ => le_rfl,nofun,nofun⟩⟩
  | passed =>
    have hkey := hle key
    change _+1<_ at hlt
    obtain ⟨hgrown,hinsert⟩ := LightPart.insert_spec (l := l) (f := 1) (p.counterPos_lt key) (by change _+1<_; omega)
    refine ⟨hgrown,fun hsat => ⟨fun x => hgrown.mono _,fun _ => ?_,nofun⟩⟩
    exact (hinsert (hsat _ (p.counterPos_lt key))).ge
  | swapped y v =>
    have hy := hle y
    change _+v.toNat%2^31<_ at hlt
    rw [lightInsert]
    split_ifs with hflag
    · have hval := toNat_getCounterVal v
      obtain ⟨hgrown,hinsert⟩ := LightPart.insert_spec (l := l) (f := getCounterVal v) (p.counterPos_lt y) (by omega)
      rw [hval] at hgrown hinsert
      refine ⟨hgrown,fun hsat => ⟨fun x => hgrown.mono _,nofun,fun y' v' hswap => ?_⟩⟩
      cases hswap
      rw [if_pos ((highestBitIs1_iff v).mp hflag)]
      exact (hinsert (hsat _ (p.counterPos_lt y))).ge
    · have hsmall : v.toNat<2^31 := by
        by_contra hge
        exact hflag ((highestBitIs1_iff v).mpr (Nat.le_of_not_lt hge))
      obtain ⟨hgrown,hinsert⟩ := LightPart.swapInsert_spec (l := l) (p.counterPos_lt y) hsmall
      refine ⟨?_,fun hsat => ⟨fun x => hgrown.mono _,nofun,fun y' v' hswap => ?_⟩⟩
      · rw [HeavyResult.moved,Nat.mod_eq_of_lt hsmall]
        exact hgrown
      · cases hswap
        rw [if_neg (Nat.not_le.mpr hsmall)]
        exact hinsert (hsat _ (p.counterPos_lt y))

def total (p : Params) (s : Sketch) : Nat :=
  ∑ n ∈ Finset.range p.bucketNum, (s.heavy n).weight+s.light.weight p.counterNum

theorem weight_le_total (s : Sketch) (x : Key) :
    (s.heavy (p.bucketPos x)).weight+s.light.weight p.counterNum ≤ s.total p := by
  have hle := Finset.single_le_sum (fun n _ => Nat.zero_le (s.heavy n).weight) (Finset.mem_range.mpr (p.bucketPos_lt x))
  exact Nat.add_le_add_right hle _

theorem insert_parts (s : Sketch) (key : Key) (hlt : s.total p<2^31-1) :
    ∃ r, (s.heavy (p.bucketPos key)).Outcome key r ∧ (s.heavy (p.bucketPos key)).weight<2^31-1 ∧
      (s.insert p key 1).heavy=update s.heavy (p.bucketPos key) r.1 ∧
      r.1.weight+r.2.moved≤(s.heavy (p.bucketPos key)).weight+1 ∧
      LightPart.Grown p.counterNum s.light (s.insert p key 1).light r.2.moved ∧
      ((∀ q<p.counterNum, (s.insert p key 1).light.nums q≠255) →
        Absorbs (lightOf p s.light) (lightOf p (s.insert p key 1).light) key r.2) := by
  have hle := weight_le_total (p := p) s key
  have houtcome := (s.heavy (p.bucketPos key)).insert_outcome key
  have hweight := houtcome.weight_le (by omega)
  obtain ⟨hgrown,habsorbs⟩ := lightInsert_spec (p := p) s.light key
    ((s.heavy (p.bucketPos key)).insert key 1).2 (by omega)
  exact ⟨_,houtcome,by omega,rfl,hweight,hgrown,habsorbs⟩


theorem total_insert_le (s : Sketch) (key : Key) (hlt : s.total p<2^31-1) :
    (s.insert p key 1).total p ≤ s.total p+1 := by
  obtain ⟨r,-,-,hheavy,hweight,hgrown,-⟩ := s.insert_parts key hlt
  have hmem := Finset.mem_range.mpr (p.bucketPos_lt key)
  have hsum := sum_update_add hmem (fun n => (s.heavy n).weight) r.1.weight
  have hlight := hgrown.weight_le
  have hheavy' (n : Nat) : ((s.insert p key 1).heavy n).weight =
      update (fun n => (s.heavy n).weight) (p.bucketPos key) r.1.weight n := by
    rw [hheavy]
    exact congrFun (comp_update Bucket.weight s.heavy _ _) n
  have hsum' : ∑ n ∈ Finset.range p.bucketNum, ((s.insert p key 1).heavy n).weight = ∑ n ∈ Finset.range p.bucketNum,
        update (fun n => (s.heavy n).weight) (p.bucketPos key) r.1.weight n :=
    Finset.sum_congr rfl fun n _ => hheavy' n
  rw [total,total,hsum']
  omega
variable (keys : List Key)
theorem insertAll_concat (key : Key) : insertAll p (keys++[key])=(insertAll p keys).insert p key 1 := by
  rw [insertAll,foldl_append]
  rfl

theorem total_insertAll_le (hlen : keys.length<2^31) : (insertAll p keys).total p≤keys.length := by
  induction keys using List.reverseRecOn with
  | nil =>
    have hweight : Bucket.empty.weight=0 := rfl
    simp [insertAll,total,init,LightPart.weight,LightPart.nums,LightPart.init,hweight]
  | append_singleton keys key ih =>
    rw [length_append,length_singleton] at hlen ⊢
    rw [insertAll_concat]
    have hstep := (insertAll p keys).total_insert_le (p := p) key (by omega)
    omega

def Unsaturated (p : Params) (s : Sketch) : Prop := ∀ q<p.counterNum, s.light.counters q≠255

instance (p : Params) (s : Sketch) : Decidable (Unsaturated p s) :=
  inferInstanceAs (Decidable (∀ q<p.counterNum, s.light.counters q≠255))

theorem unsaturated_iff : Unsaturated p s ↔ ∀ q<p.counterNum, s.light.nums q≠255 := by
  refine forall₂_congr fun q _ => ?_
  rw [ne_eq,ne_eq,← toNat_inj]
  rfl

theorem insertAll_sound (hlen : keys.length<2^31) (hsat : Unsaturated p (insertAll p keys)) (n : Nat) :
    ((insertAll p keys).heavy n).Sound (fun x => p.bucketPos x=n) (fun x => keys.count x)
      (lightOf p (insertAll p keys).light) := by
  induction keys using List.reverseRecOn with
  | nil => exact .init _
  | append_singleton keys key ih =>
    rw [length_append,length_singleton] at hlen
    rw [insertAll_concat] at hsat ⊢
    have htotal := total_insertAll_le (p := p) keys (by omega)
    obtain ⟨r,houtcome,hweight,hheavy,-,hgrown,habsorbs⟩ :=
      (insertAll p keys).insert_parts (p := p) key (by omega)
    rw [unsaturated_iff] at hsat
    have hbefore : Unsaturated p (insertAll p keys) := by
      refine unsaturated_iff.mpr fun q hq h255 => hsat q hq ?_
      have hmono := hgrown.mono q
      have hlt := LightPart.nums_lt ((insertAll p keys).insert p key 1).light q
      omega
    have hsound := ih (by omega) hbefore
    have hcount (x : Key) (hx : x≠key) : (keys++[key]).count x=keys.count x := by
      rw [count_append,count_singleton,if_neg (by simpa using hx.symm),Nat.add_zero]
    rw [hheavy]
    by_cases hn : n=p.bucketPos key
    · rw [hn,update_self]
      rw [hn] at hsound
      refine hsound.insert houtcome hweight rfl ?_ (habsorbs hsat)
      funext x
      by_cases hx : x=key
      · rw [hx,update_self,count_append,count_singleton_self]
      · rw [update_of_ne hx]
        exact hcount x hx
    · rw [update_of_ne hn]
      refine hsound.congr (fun x hx _ => .inl (hcount x ?_)) (habsorbs hsat).mono
      rintro rfl
      exact hn hx.symm

def Resident (p : Params) (s : Sketch) (key : Key) : Prop :=
  ∃ i, (validLanes.find? fun i => (s.heavy (p.bucketPos key)).key i==key)=some i ∧
    highestBitIs1 ((s.heavy (p.bucketPos key)).val i)=false

theorem query_of_sound {cnt : Key → Nat} (hkey : key≠0) (htotal : s.total p<2^31)
    (hsound : (s.heavy (p.bucketPos key)).Sound (fun x => p.bucketPos x=p.bucketPos key) cnt (lightOf p s.light)) :
    (cnt key : Int) ≤ s.query p key ∧ (s.Resident p key → s.query p key=cnt key) := by
  have hle := weight_le_total (p := p) s key
  have hlight : lightOf p s.light key ≤ s.light.weight p.counterNum :=
    LightPart.nums_le_weight (p.counterPos_lt key)
  have hwide : (s.light.query (p.counterPos key)).toNat=lightOf p s.light key := by
    rw [LightPart.query,toNat_setWidth]
    exact Nat.mod_eq_of_lt (by omega)
  -- the sum that is returned is not too large for an `int`
  have hsum (v : BitVec 32) (hv : v.toNat%2^31+lightOf p s.light key<2^31) :
      (getCounterVal v+s.light.query (p.counterPos key)).toInt =
        (v.toNat%2^31 : Nat)+(lightOf p s.light key : Nat) := by
    have hnat : (getCounterVal v+s.light.query (p.counterPos key)).toNat = v.toNat%2^31+lightOf p s.light key := by
      rw [toNat_add,toNat_getCounterVal,hwide]
      omega
    rw [toInt_eq_toNat_of_lt (by omega),hnat]
    exact Int.natCast_add _ _
  rw [Resident,query,Bucket.query]
  split
  · rename_i i hfind
    have hi := mem_validLanes.mp (mem_of_find?_eq_some hfind)
    have hki : (s.heavy (p.bucketPos key)).key i=key := by simpa using List.find?_some hfind
    have hne : (s.heavy (p.bucketPos key)).key i≠0 := by
      rw [hki]
      exact hkey
    have hcount := Bucket.count_le_weight (s.heavy (p.bucketPos key)) hi
    have hpos : (s.heavy (p.bucketPos key)).count i≠0 := fun h0 => hne (hsound.empty i hi h0)
    rw [Bucket.count] at hcount hpos
    generalize hv : (s.heavy (p.bucketPos key)).val i=v at hcount hpos ⊢
    have hv0 : v≠0 := by
      rintro rfl
      exact hpos rfl
    by_cases hflag : highestBitIs1 v
    · have hge := (highestBitIs1_iff v).mp hflag
      have hflagged := hsound.flagged i hne (hv ▸ hge)
      rw [hki,Bucket.count,hv] at hflagged
      rw [if_pos (.inr hflag),hsum v (by omega)]
      refine ⟨by omega,?_⟩
      rintro ⟨j,hj,hclear⟩
      cases hfind.symm.trans hj
      rw [hv,hflag] at hclear
      cases hclear
    · have hlt : v.toNat<2^31 := by
        by_contra hge
        exact hflag ((highestBitIs1_iff v).mpr (Nat.le_of_not_lt hge))
      have hexact := hsound.exact_count i hne (hv ▸ hlt)
      rw [hki,hv] at hexact
      rw [if_neg (not_or.mpr ⟨hv0,hflag⟩),toInt_eq_toNat_of_lt (by omega),hexact]
      exact ⟨le_rfl,fun _ => rfl⟩
  · rename_i hfind
    have hnot : ∀ i, (s.heavy (p.bucketPos key)).key i≠key := by
      intro i hi
      by_cases hg : i=guardLane
      · rw [hg,hsound.guard_key] at hi
        exact hkey hi.symm
      · have := List.find?_eq_none.mp hfind i (mem_validLanes.mpr hg)
        simp [hi] at this
    have habsent := hsound.absent key rfl hkey hnot
    rw [if_pos (.inl rfl),hsum 0 (by change 0%2^31+_<_; omega)]
    refine ⟨?_,?_⟩
    · omega
    · rintro ⟨i,hi,-⟩
      rw [hfind] at hi
      cases hi

private def oneBucket : Params := ⟨1,4,calculateBucketPos,fun x => x,by decide,by decide⟩
private def fullBucket : List Key := [1,2,3,4,5,6,7,0]
private theorem fullBucket_unsaturated : Unsaturated oneBucket (insertAll oneBucket fullBucket) := by decide +kernel

theorem zeroKey_underestimated : fullBucket.length<2^31 ∧ Unsaturated oneBucket (insertAll oneBucket fullBucket) ∧
      ¬((fullBucket.count 0 : Nat) : Int)≤(insertAll oneBucket fullBucket).query oneBucket 0 := by
  refine ⟨by decide,fullBucket_unsaturated,?_⟩
  decide

/-- The keys that are never under-estimated, and exact while they have a lane without the flag, are
all keys but zero. -/
theorem never_underestimates_iff (key : Key) :
    (∀ (p : Params) (keys : List Key), keys.length<2^31 → Unsaturated p (insertAll p keys) →
      ((keys.count key : Nat) : Int)≤(insertAll p keys).query p key ∧
        ((insertAll p keys).Resident p key → (insertAll p keys).query p key=keys.count key)) ↔
      key≠0 := by
  constructor
  · rintro h rfl
    have hle := (h oneBucket fullBucket (by decide) fullBucket_unsaturated).1
    exact absurd hle (by decide)
  · intro hkey p keys hlen hsat
    have htotal := total_insertAll_le (p := p) keys hlen
    exact query_of_sound hkey (by omega) (insertAll_sound keys hlen hsat _)
end Sketch
end P4Benchmarks.Elastic
