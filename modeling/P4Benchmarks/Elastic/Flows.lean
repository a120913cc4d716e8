import P4Benchmarks.Elastic.Lanes
/-!
# The counts of the flows

A flow's inserts are split between a lane of the heavy part and a counter of the light part.  A zero
key cannot be told from an empty lane or the guard counter.
-/
namespace P4Benchmarks.Elastic
open Function
structure Absorbs (lt lt' : Key → Nat) (fp : Key) (r : HeavyResult) : Prop where
  mono : ∀ x, lt x≤lt' x
  passed : r=.passed → lt fp+1≤lt' fp
  swapped : ∀ y v, r=.swapped y v → if 2^31≤v.toNat then lt y+v.toNat%2^31≤lt' y else v.toNat≤lt' y
namespace Bucket

/-- `cnt` are the inserts of each key, `lt` their counters in the light part, `home` the keys that
belong to this bucket. -/
structure Sound (home : Key → Prop) (cnt lt : Key → Nat) (b : Bucket) : Prop where
  guard_key : b.key guardLane=0
  empty : ∀ i≠guardLane, b.count i=0 → b.key i=0
  unique : ∀ i j, b.key i≠0 → b.key i=b.key j → i=j
  home_key : ∀ i, b.key i≠0 → home (b.key i)
  exact_count : ∀ i, b.key i≠0 → (b.val i).toNat<2^31 → (b.val i).toNat=cnt (b.key i)
  flagged : ∀ i, b.key i≠0 → 2^31≤(b.val i).toNat → cnt (b.key i)≤b.count i+lt (b.key i)
  absent : ∀ x, home x → x≠0 → (∀ i, b.key i≠x) → cnt x≤lt x
  fresh : ∀ x, home x → x≠0 → (∀ i, b.key i≠x) → ∀ i≠guardLane, b.count i=0 → cnt x=0
namespace Sound
variable {home : Key → Prop} {cnt cnt' lt lt' : Key → Nat} {b : Bucket} {fp : Key}
theorem init (home : Key → Prop) : Bucket.empty.Sound home (fun _ => 0) (fun _ => 0) where
  guard_key := rfl
  empty _ _ _ := rfl
  unique _ _ hne := absurd rfl hne
  home_key _ hne := absurd rfl hne
  exact_count _ hne := absurd rfl hne
  flagged _ hne := absurd rfl hne
  absent _ _ _ _ := le_rfl
  fresh _ _ _ _ _ _ _ := rfl
variable (h : b.Sound home cnt lt)
include h
theorem congr (hcnt : ∀ x, home x → x≠0 → cnt' x=cnt x ∨ (∀ i, b.key i≠x) ∧ cnt' x≤lt' x ∧ ∀ i≠guardLane, b.count i≠0)
    (hlt : ∀ x, lt x≤lt' x) : b.Sound home cnt' lt' := by
  have hlane (i : Lane) (hi : b.key i≠0) : cnt' (b.key i)=cnt (b.key i) :=
    (hcnt _ (h.home_key i hi) hi).resolve_right fun hout => hout.1 i rfl
  refine ⟨h.guard_key,h.empty,h.unique,h.home_key,fun i hi hflag => ?_,fun i hi hflag => ?_,
    fun x hx hne hnot => ?_,fun x hx hne hnot i hi hzero => ?_⟩
  · rw [hlane i hi]
    exact h.exact_count i hi hflag
  · rw [hlane i hi]
    exact (h.flagged i hi hflag).trans (Nat.add_le_add_left (hlt _) _)
  · rcases hcnt x hx hne with heq | ⟨-,hle,-⟩
    · rw [heq]
      exact (h.absent x hx hne hnot).trans (hlt x)
    · exact hle
  · rcases hcnt x hx hne with heq | ⟨-,-,hfull⟩
    · rw [heq]
      exact h.fresh x hx hne hnot i hi hzero
    · exact absurd hzero (hfull i hi)

theorem setGuard (v : BitVec 32) : Sound home cnt lt { b with val := update b.val guardLane v } := by
  have hval (i : Lane) (hi : i≠guardLane) : update b.val guardLane v i=b.val i := update_of_ne hi _ _
  have hne (i : Lane) (hi : b.key i≠0) : i≠guardLane := fun hg => hi (hg ▸ h.guard_key)
  refine ⟨h.guard_key,fun i hi hzero => ?_,h.unique,h.home_key,fun i hi hflag => ?_,
    fun i hi hflag => ?_,h.absent,fun x hx hx0 hnot i hi hzero => ?_⟩
  · rw [count] at hzero
    simp only [hval i hi] at hzero
    exact h.empty i hi hzero
  · simp only [hval i (hne i hi)] at hflag ⊢
    exact h.exact_count i hi hflag
  · rw [count]
    simp only [hval i (hne i hi)] at hflag ⊢
    exact h.flagged i hi hflag
  · rw [count] at hzero
    simp only [hval i hi] at hzero
    exact h.fresh x hx hx0 hnot i hi hzero

theorem setLane {m : Lane} {v : BitVec 32} (hm : m≠guardLane) (hhome : home fp) (honly : fp≠0 → ∀ i, b.key i=fp → i=m)
    (hv : v.toNat%2^31≠0) (hcnt : ∀ x, x≠fp → cnt' x=cnt x) (hlt : ∀ x, lt x≤lt' x)
    (hexact : fp≠0 → v.toNat<2^31 → v.toNat=cnt' fp) (hflagged : fp≠0 → 2^31≤v.toNat → cnt' fp≤v.toNat%2^31+lt' fp)
    (hgone : b.key m≠fp → b.key m≠0 → cnt (b.key m)≤lt' (b.key m) ∧ ∀ i≠guardLane, b.count i≠0) :
    Sound home cnt' lt' ⟨update b.key m fp,update b.val m v⟩ := by
  -- a lane other than `m` keeps its flow
  have hkeep (i : Lane) (hi : i≠m) (hne : b.key i≠0) : cnt' (b.key i)=cnt (b.key i) := by
    apply hcnt
    intro heq
    exact hi (honly (heq ▸ hne) i heq)
  -- a key that is in no lane was in none, or had lane `m`
  have hnot (x : Key) (hx : ∀ i, update b.key m fp i≠x) : x≠fp ∧ (b.key m=x ∨ ∀ i, b.key i≠x) := by
    refine ⟨fun heq => hx m (by rw [update_self,heq]),?_⟩
    by_cases hmx : b.key m=x
    · exact .inl hmx
    · refine .inr fun i hi => ?_
      by_cases him : i=m
      · exact hmx (him ▸ hi)
      · exact hx i (by rw [update_of_ne him,hi])
  refine ⟨?_,fun i hi hzero => ?_,fun i j hi hij => ?_,fun i hi => ?_,fun i hi hflag => ?_,
    fun i hi hflag => ?_,fun x hx hx0 hout => ?_,fun x hx hx0 hout i hi hzero => ?_⟩
  · dsimp only
    rw [update_of_ne hm.symm]
    exact h.guard_key
  · dsimp only [count] at hzero ⊢
    by_cases him : i=m
    · rw [him,update_self] at hzero
      exact absurd hzero hv
    · rw [update_of_ne him] at hzero ⊢
      exact h.empty i hi hzero
  · dsimp only at hi hij
    by_cases him : i=m
    · by_cases hjm : j=m
      · rw [him,hjm]
      · rw [him,update_self] at hi hij
        rw [update_of_ne hjm] at hij
        rw [him,honly hi j hij.symm]
    · rw [update_of_ne him] at hi hij
      by_cases hjm : j=m
      · rw [hjm,update_self] at hij
        rw [hjm,honly (hij ▸ hi) i hij]
      · rw [update_of_ne hjm] at hij
        exact h.unique i j hi hij
  · dsimp only at hi ⊢
    by_cases him : i=m
    · rw [him,update_self]
      exact hhome
    · rw [update_of_ne him] at hi ⊢
      exact h.home_key i hi
  · dsimp only at hi hflag ⊢
    by_cases him : i=m
    · rw [him,update_self] at hi hflag ⊢
      rw [update_self]
      exact hexact hi hflag
    · rw [update_of_ne him] at hi hflag ⊢
      rw [update_of_ne him,hkeep i him hi]
      exact h.exact_count i hi hflag
  · dsimp only [count] at hi hflag ⊢
    by_cases him : i=m
    · rw [him,update_self] at hi hflag ⊢
      rw [update_self]
      exact hflagged hi hflag
    · rw [update_of_ne him] at hi hflag ⊢
      rw [update_of_ne him,hkeep i him hi]
      exact (h.flagged i hi hflag).trans (Nat.add_le_add_left (hlt _) _)
  · obtain ⟨hxfp,hold | hnever⟩ := hnot x hout
    · rw [hcnt x hxfp,← hold]
      rw [← hold] at hxfp hx0
      exact (hgone hxfp hx0).1
    · rw [hcnt x hxfp]
      exact (h.absent x hx hx0 hnever).trans (hlt x)
  · obtain ⟨hxfp,hold | hnever⟩ := hnot x hout
    all_goals
      dsimp only [count] at hzero
      by_cases him : i=m
      · rw [him,update_self] at hzero
        exact absurd hzero hv
      rw [update_of_ne him] at hzero
    · rw [← hold] at hxfp hx0
      exact absurd hzero ((hgone hxfp hx0).2 i hi)
    · rw [hcnt x hxfp]
      exact h.fresh x hx hx0 hnever i hi hzero

theorem insert {r : Bucket × HeavyResult} (houtcome : b.Outcome fp r) (hweight : b.weight<2^31-1) (hhome : home fp)
    (hcnt : cnt'=update cnt fp (cnt fp+1)) (habsorbs : Absorbs lt lt' fp r.2) : r.1.Sound home cnt' lt' := by
  have hcnt' (x : Key) (hx : x≠fp) : cnt' x=cnt x := by rw [hcnt,update_of_ne hx]
  have hfp : cnt' fp=cnt fp+1 := by rw [hcnt,update_self]
  cases houtcome with
  | matched i hkey =>
    by_cases hi : i=guardLane
    · -- the zero key takes the guard counter for its own
      rw [hi] at hkey ⊢
      refine (h.setGuard _).congr (fun x _ hne => .inl (hcnt' x ?_)) habsorbs.mono
      rwa [← hkey,h.guard_key]
    · have hcount := (b.count_le_weight hi).trans_lt hweight
      have hsucc := toNat_add_one hcount
      rw [count] at hcount
      rw [show b.key=update b.key i fp by rw [← hkey,update_eq_self]]
      refine h.setLane hi hhome (fun hne j hj => ?_) (by omega) hcnt' habsorbs.mono
        (fun hne hflag => ?_) (fun hne hflag => ?_) (fun hgone => absurd hkey hgone)
      · exact h.unique j i (hj ▸ hne) (hj.trans hkey.symm)
      · have hexact := h.exact_count i (hkey ▸ hne) (by omega)
        rw [hkey] at hexact
        omega
      · have hle := h.flagged i (hkey ▸ hne) (by omega)
        have hmono := habsorbs.mono fp
        rw [hkey,count] at hle
        omega
  | filled m hnew hm hzero =>
    have hempty := h.empty m hm hzero
    refine h.setLane hm hhome (fun _ i hi => absurd hi (hnew i)) (by decide) hcnt' habsorbs.mono
      (fun hne _ => ?_) (fun _ hflag => absurd hflag (by decide)) (fun _ hne => absurd hempty hne)
    rw [hfp,h.fresh fp hhome hne hnew m hm hzero]
    rfl
  | passed hnew hfull guardVal =>
    have hpassed := habsorbs.passed rfl
    refine h.congr (fun x hx hne => ?_) habsorbs.mono |>.setGuard guardVal
    by_cases hxfp : x=fp
    · rw [hxfp] at hx hne ⊢
      have hle := h.absent fp hx hne hnew
      exact .inr ⟨hnew,by omega,hfull⟩
    · exact .inl (hcnt' x hxfp)
  | swapped m hnew hm hfull =>
    have hswapped := habsorbs.swapped _ _ rfl
    have hguard := h.setGuard 0
    refine hguard.setLane hm hhome (fun _ i hi => absurd hi (hnew i)) (by decide) hcnt'
      habsorbs.mono (fun _ hflag => absurd hflag (by decide)) (fun hne _ => ?_) (fun _ hne => ?_)
    · have hle := (h.absent fp hhome hne hnew).trans (habsorbs.mono fp)
      change cnt' fp≤1+lt' fp
      omega
    · refine ⟨?_,fun i hi => ?_⟩
      · change cnt (b.key m)≤lt' (b.key m)
        split_ifs at hswapped with hflag
        · exact (h.flagged m hne hflag).trans (by rw [count]; omega)
        · rw [← h.exact_count m hne (by omega)]
          exact hswapped
      · dsimp only [count]
        rw [update_of_ne hi]
        exact hfull i hi
end Sound
end Bucket
end P4Benchmarks.Elastic
