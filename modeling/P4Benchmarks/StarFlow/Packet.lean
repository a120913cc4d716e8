import P4Benchmarks.StarFlow.Accounted
/-! # One packet -/
namespace P4Benchmarks.StarFlow
open List Mclfr
attribute [local simp] Cache.appendRecord Cache.setSlot
variable {p : Params} {s t : Cache} {seen : List PacketRecord} {pr : PacketRecord} {h j : Nat} {m : Mclfr}

def Cache.exportsNow (p : Params) (s : Cache) (pr : PacketRecord) : Bool :=
  match getSlotId p (s.chains (p.hashVal pr.key)) pr.key s.curTs 0 with
  | (.slotEvict,_) => true
  | (.slotMatch,j) =>
    let m := (s.allocLongPointer p (p.hashVal pr.key) j).chains (p.hashVal pr.key) j
    (m.pktCt+1)%p.width m==0
  | (.slotFree,_) => false

structure Cache.Passed (s t : Cache) (exports : Bool) : Prop where
  pktCt : t.globalPktCt=s.globalPktCt
  startTs : t.startTs=s.startTs
  curTs : t.curTs=s.curTs
  mfCt : t.globalMfCt=s.globalMfCt+exports.toNat

def Cache.Fresh (s : Cache) : Prop := ∀ h j, (s.chains h j).inUse=false → (s.chains h j).key=.zero

theorem Cache.Fresh.of_setSlot (hs : s.Fresh) (hin : m.inUse)
    (hchains : t.chains=(s.setSlot h j m).chains) : t.Fresh := by
  intro h' j' hfree
  rw [hchains] at hfree ⊢
  by_cases hat : h'=h ∧ j'=j
  · rw [hat.1,hat.2,Cache.setSlot_self,hin] at hfree
    exact absurd hfree (by decide)
  · rw [Cache.setSlot_of_ne _ _ hat] at hfree ⊢
    exact hs h' j' hfree

structure Running (p : Params) (s : Cache) (seen : List PacketRecord) : Prop extends
    Accounted p s seen where
  fresh : s.Fresh

theorem Running.inUse_of_match (hs : Running p s seen) (hkey : pr.key≠.zero)
    (hmatch : (s.chains h j).key = pr.key) : (s.chains h j).inUse := by
  by_contra hfree
  exact hkey (hmatch.symm.trans (hs.fresh _ _ (Bool.not_eq_true _ ▸ hfree)))

theorem Running.of_setSlot (hs : Running p s seen) (ht : Accounted p t (seen++[pr]))
    (hin : m.inUse) (hchains : t.chains=(s.setSlot h j m).chains) :
    Running p t (seen++[pr]) := ⟨ht,hs.fresh.of_setSlot hin hchains⟩

theorem width_appendRecord {n : Nat} (hn : n < mclfrMaxlen) (curTs : Nat) :
    p.width (appendRecord { m with pktCt := n } pr curTs) = p.width m := by
  simp [Params.width,Mclfr.appendRecord,Nat.ne_of_lt hn]

section
variable (hs : Accounted p s seen)
include hs

theorem Accounted.initMfr (hj : j<p.lruChainLen) (hh : h=p.hashVal pr.key) (hfree : (s.chains h j).inUse=false)
    (hnew : ∀ h j, (s.chains h j).inUse → (s.chains h j).key≠pr.key) (hkey : pr.key≠.zero) :
    Accounted p (s.initMfr h j pr) (seen++[pr]) := by
  refine hs.record (m := (s.chains h j).initMfr pr s.curTs) rfl rfl ⟨hh,hj,hkey,p.one_le_partition1Width⟩
    (Nat.le_refl _) ?_ ?_ rfl rfl fun _ _ => rfl
  · intro h' j' hused
    refine iff_of_false (hnew h' j' hused) ?_
    rintro ⟨rfl,rfl⟩
    rw [hfree] at hused
    exact absurd hused (by decide)
  · congr 1
    exact hs.absent pr.key hnew

theorem Accounted.append (hwidth : p.partition1Width+p.partition2Width ≤ mclfrMaxlen) (top : Nat)
    (hm : m.Marks (s.chains h j)) (hused : (s.chains h j).inUse) (hkey : (s.chains h j).key = pr.key)
    (hroom : m.pktCt < p.width m) :
    ∃ t m', Cache.append (p.width m) { s.setSlot h j m with stackTop := top } h j pr = t ∧
      m'.inUse ∧ t.chains = (s.setSlot h j m').chains ∧
      Accounted p t (seen++[pr]) ∧ s.Passed t ((m.pktCt+1)%p.width m==0) := by
  have hold := hs.slot _ _ hused
  have hmkey : m.key = pr.key := hm.key.trans hkey
  have hmused : m.inUse := hm.inUse.trans hused
  have hstored : m.stored = (s.chains h j).stored := by simp [stored,evicted,records,hm.pktCt,hm.packetVector]
  have honly (h' j' : Nat) (hused' : (s.chains h' j').inUse) : (s.chains h' j').key = pr.key ↔ h' = h ∧ j' = j := by
    constructor
    · intro heq
      exact hs.unique _ _ _ _ hused' hused (heq.trans hkey.symm)
    · rintro ⟨rfl,rfl⟩
      exact hkey
  have hcached := hs.cached _ _ hused
  rw [hkey,← hstored] at hcached
  have hmax : p.width m ≤ mclfrMaxlen := by
    unfold Params.width
    split <;> omega
  -- the slot as `record` wants it
  have hslot {n : Nat} (hn : n < p.width m) : SlotOk p h j (appendRecord { m with pktCt := n } pr s.curTs) := by
    refine ⟨?_,hold.pos,?_,?_⟩
    · exact hold.home.trans (congrArg p.hashVal hm.key.symm)
    · exact fun hzero => hold.named (hm.key.symm.trans hzero)
    · rw [width_appendRecord (Nat.lt_of_lt_of_le hn hmax)]
      exact hn
  unfold Cache.append
  simp only [Cache.setSlot_self]
  by_cases hfull : (m.pktCt+1)%p.width m = 0
  · have hone : stored (appendRecord { m with pktCt := 0 } pr s.curTs) = [pr.features] := by
      rw [stored_of_pktCt_zero rfl]
      simp [appendRecord]
    rw [if_pos hfull]
    refine ⟨_,appendRecord { m with pktCt := 0 } pr s.curTs,rfl,hmused,?_,?_,?_⟩
    · simp [Cache.exportMfr]
    · refine hs.record (m := appendRecord { m with pktCt := 0 } pr s.curTs) hmused hmkey
        (hslot (Nat.zero_lt_of_lt hroom)) (Nat.le_refl _) honly ?_ ?_ rfl ?_
      · rw [hone,Cache.exportedOf_concat (s := s) (m := m) rfl,if_pos hmkey,hcached]
      · simp [Cache.exportMfr]
      · intro k hk
        rw [Cache.exportedOf_concat (s := s) (m := m) rfl,if_neg (hmkey.trans_ne hk.symm),append_nil]
    · exact ⟨rfl,rfl,rfl,by simp [hfull,Cache.exportMfr]⟩
  · have hnext : stored (appendRecord { m with pktCt := m.pktCt+1 } pr s.curTs) =
        m.stored++[pr.features] := stored_of_appendRecord rfl
    have hlt : m.pktCt+1 < p.width m := by
      refine Nat.lt_of_le_of_ne hroom fun heq => hfull ?_
      rw [heq,Nat.mod_self]
    rw [if_neg hfull]
    refine ⟨_,appendRecord { m with pktCt := m.pktCt+1 } pr s.curTs,rfl,hmused,?_,?_,?_⟩
    · simp
    · refine hs.record (m := appendRecord { m with pktCt := m.pktCt+1 } pr s.curTs) hmused
        hmkey (hslot hlt) (Nat.le_refl _) honly ?_ ?_ rfl fun _ _ => rfl
      · rw [hnext,← hcached,← append_assoc]
        rfl
      · simp
    · exact ⟨rfl,rfl,rfl,by simp [hfull]⟩

theorem Accounted.evictMfr (hused : (s.chains h j).inUse) :
    Accounted p ((s.evictMfr h j).exportMfr (s.chains h j).evicted) seen ∧
      s.Passed ((s.evictMfr h j).exportMfr (s.chains h j).evicted) true := by
  obtain ⟨stack,top,hevict⟩ := s.evictMfr_eq h j
  have hchains := s.evictMfr_chains h j
  constructor
  · refine hs.evict (m := (s.chains h j).released) hused rfl (hs.accessed h j) hchains ?_ ?_
    · rw [hevict]
      rfl
    · rw [hevict]
      rfl
  · rw [hevict]
    exact ⟨rfl,rfl,rfl,rfl⟩

theorem Accounted.not_cached (hchain : ∀ i<p.lruChainLen, (s.chains (p.hashVal pr.key) i).key≠pr.key) (h j : Nat)
    (hused : (s.chains h j).inUse) : (s.chains h j).key≠pr.key := by
  intro heq
  have hok := hs.slot h j hused
  have hhome := hok.home
  rw [heq] at hhome
  subst hhome
  exact hchain j hok.pos heq
end

theorem Running.pipeline (hwidth : p.partition1Width+p.partition2Width ≤ mclfrMaxlen)
    (hs : Running p s seen) (hkey : pr.key≠.zero) (hwrap : s.curTs+1<2^64) :
    Running p (s.pipeline p pr) (seen++[pr]) ∧ s.Passed (s.pipeline p pr) (s.exportsNow p pr) := by
  obtain ⟨type,j,hget,hfound⟩ := getSlotId_spec p (s.chains (p.hashVal pr.key)) pr.key (hs.accessed _ 0) hwrap
  unfold Cache.pipeline Cache.exportsNow
  simp only [hget]
  cases hfound with
  | slotFree hj hchain hfree _ =>
    refine ⟨hs.of_setSlot ?_ rfl rfl,rfl,rfl,rfl,rfl⟩
    exact hs.initMfr hj rfl hfree (hs.not_cached hchain) hkey
  | slotEvict hj hchain hall =>
    have hused := hall j hj
    obtain ⟨hgone,hpassed⟩ := hs.toAccounted.evictMfr hused
    have hchains := s.evictMfr_chains (p.hashVal pr.key) j
    have hself : (s.evictMfr (p.hashVal pr.key) j).chains (p.hashVal pr.key) j =
        (s.chains (p.hashVal pr.key) j).released := by
      rw [hchains,Cache.setSlot_self]
    -- the old flow leaves, then the new one takes its slot
    have hnew := hgone.initMfr (j := j) hj rfl (congrArg inUse hself)
      (hgone.not_cached fun i hi => ?_) hkey
    · dsimp only
      rw [if_pos hj]
      exact ⟨hs.of_setSlot hnew rfl (Cache.setSlot_chains_of_eq hchains _),
        hpassed.pktCt,hpassed.startTs,hpassed.curTs,hpassed.mfCt⟩
    · change ((s.evictMfr (p.hashVal pr.key) j).chains (p.hashVal pr.key) i).key≠pr.key
      by_cases hij : i=j
      · rw [hij,hself]
        exact hchain j hj
      · rw [hchains,Cache.setSlot_of_ne _ _ fun hat => hij hat.2]
        exact hchain i hi
  | slotMatch hj hmatch =>
    have hused := hs.inUse_of_match hkey hmatch
    obtain ⟨m,top,halloc,hmarks,hroom⟩ := s.allocLongPointer_eq p (p.hashVal pr.key) j (hs.slot _ _ hused).room
    obtain ⟨t,m',happend,hin,hchains,ht,hpassed⟩ := hs.append hwidth top hmarks hused hmatch hroom
    dsimp only
    have hslot : (s.allocLongPointer p (p.hashVal pr.key) j).chains (p.hashVal pr.key) j=m := by
      rw [halloc]
      exact s.setSlot_self _ _ _
    rw [Cache.appendMatch_eq,hslot,halloc,happend]
    exact ⟨hs.of_setSlot ht hin hchains,hpassed⟩
end P4Benchmarks.StarFlow
