import P4Benchmarks.StarFlow.Slots
/-! # Where each record is -/
namespace P4Benchmarks.StarFlow
open List
def Mclfr.stored (m : Mclfr) : List PacketFeatures := m.evicted.records

theorem Mclfr.stored_of_appendRecord {m m' : Mclfr} {pr : PacketRecord} {curTs : Nat}
    (hm : m'=appendRecord { m with pktCt := m.pktCt+1 } pr curTs) :
    m'.stored=m.stored++[pr.features] := by
  subst hm
  simp only [stored,evicted,records,appendRecord]
  rw [range_succ,map_append,map_singleton,Function.update_self]
  congr 1
  refine map_congr_left fun i hi => ?_
  rw [Function.update_of_ne]
  have := mem_range.mp hi
  omega
variable {m : Mclfr}
theorem Mclfr.stored_of_pktCt_zero (hzero : m.pktCt=0) : m.stored=[m.packetVector 0] := by
  simp [stored,evicted,records,hzero]

def Cache.exportedOf (s : Cache) (k : Key) : List PacketFeatures :=
  (s.exported.filter fun m => m.key=k).flatMap Mclfr.records

theorem Cache.exportedOf_concat {s t : Cache} (hexp : t.exported=s.exported++[m.evicted]) (k : Key) :
    t.exportedOf k=s.exportedOf k ++ if m.key=k then m.stored else [] := by
  rw [exportedOf,hexp,filter_append,flatMap_append]
  congr 1
  by_cases hk : m.key=k <;> simp [Mclfr.stored,Mclfr.evicted,hk]
variable (seen : List PacketRecord)
def recordsOf (k : Key) : List PacketFeatures := (seen.filter fun pr => pr.key=k).map PacketRecord.features

theorem recordsOf_concat (pr : PacketRecord) (k : Key) :
    recordsOf (seen++[pr]) k=recordsOf seen k ++ if pr.key=k then [pr.features] else [] := by
  by_cases hk : pr.key=k <;> simp [recordsOf,filter_append,hk]

structure SlotOk (p : Params) (h j : Nat) (m : Mclfr) : Prop where
  home : h=p.hashVal m.key
  pos : j<p.lruChainLen
  named : m.key≠.zero
  room : m.pktCt<p.width m

structure Accounted (p : Params) (s : Cache) (seen : List PacketRecord) : Prop where
  slot : ∀ h j, (s.chains h j).inUse → SlotOk p h j (s.chains h j)
  accessed : ∀ h j, (s.chains h j).lastAccessTs ≤ s.curTs
  unique : ∀ h i h' i', (s.chains h i).inUse → (s.chains h' i').inUse →
    (s.chains h i).key=(s.chains h' i').key → h=h' ∧ i=i'
  cached : ∀ h j, (s.chains h j).inUse →
    s.exportedOf (s.chains h j).key++(s.chains h j).stored=recordsOf seen (s.chains h j).key
  absent : ∀ k, (∀ h j, (s.chains h j).inUse → (s.chains h j).key≠k) → s.exportedOf k=recordsOf seen k
namespace Accounted
variable {p : Params} {s t : Cache} {seen : List PacketRecord} {h j : Nat} (hs : Accounted p s seen)
include hs
theorem congr (hchains : t.chains=s.chains) (hcur : t.curTs=s.curTs)
    (hexp : t.exported=s.exported) : Accounted p t seen := by
  have hof : t.exportedOf=s.exportedOf := by
    funext k
    rw [Cache.exportedOf,Cache.exportedOf,hexp]
  constructor <;> simp only [hchains,hcur,hof]
  exacts [hs.slot,hs.accessed,hs.unique,hs.cached,hs.absent]

theorem later {startTs curTs : Nat} (hle : s.curTs ≤ curTs) :
    Accounted p { s with startTs := startTs, curTs := curTs } seen where
  __ := hs
  accessed h j := Nat.le_trans (hs.accessed h j) hle

theorem evict (hused : (s.chains h j).inUse) (hfree : m.inUse=false) (hlast : m.lastAccessTs ≤ s.curTs)
    (hchains : t.chains=(s.setSlot h j m).chains) (hcur : t.curTs=s.curTs)
    (hexp : t.exported=s.exported++[(s.chains h j).evicted]) : Accounted p t seen := by
  have hself : t.chains h j=m := by rw [hchains,Cache.setSlot_self]
  have hother {h' j' : Nat} (hne : ¬ (h'=h ∧ j'=j)) : t.chains h' j'=s.chains h' j' := by
    rw [hchains,Cache.setSlot_of_ne _ _ hne]
  have hne {h' j' : Nat} (hused' : (t.chains h' j').inUse) : ¬ (h'=h ∧ j'=j) := by
    rintro ⟨rfl,rfl⟩
    rw [hself,hfree] at hused'
    exact absurd hused' (by decide)
  have hof := Cache.exportedOf_concat hexp
  constructor
  · intro h' j' hused'
    have hat := hne hused'
    rw [hother hat] at hused' ⊢
    exact hs.slot h' j' hused'
  · intro h' j'
    rw [hcur]
    by_cases hat : h'=h ∧ j'=j
    · rw [hat.1,hat.2,hself]
      exact hlast
    · rw [hother hat]
      exact hs.accessed h' j'
  · intro h₁ i₁ h₂ i₂ hused₁ hused₂ hkey
    have hat₁ := hne hused₁
    have hat₂ := hne hused₂
    rw [hother hat₁] at hused₁ hkey
    rw [hother hat₂] at hused₂ hkey
    exact hs.unique h₁ i₁ h₂ i₂ hused₁ hused₂ hkey
  · intro h' j' hused'
    have hat := hne hused'
    rw [hother hat] at hused' ⊢
    -- the evicted flow has no second slot
    have hkey : (s.chains h j).key≠(s.chains h' j').key := fun heq =>
      hat ((hs.unique h j h' j' hused hused' heq).imp Eq.symm Eq.symm)
    rw [hof,if_neg hkey,append_nil]
    exact hs.cached h' j' hused'
  · intro k hk
    rw [hof]
    by_cases hkey : (s.chains h j).key=k
    · rw [if_pos hkey,← hkey]
      exact hs.cached h j hused
    · rw [if_neg hkey,append_nil]
      refine hs.absent k fun h' j' hused' => ?_
      by_cases hat : h'=h ∧ j'=j
      · rw [hat.1,hat.2]
        exact hkey
      · have hk' := hk h' j'
        rw [hother hat] at hk'
        exact hk' hused'

/-- The slot of a flow takes the next record: it is new, or it held the records not yet
exported. -/
theorem record {pr : PacketRecord} (hin : m.inUse) (hkey : m.key=pr.key) (hok : SlotOk p h j m)
    (hlast : m.lastAccessTs ≤ s.curTs)
    (hold : ∀ h' j', (s.chains h' j').inUse → ((s.chains h' j').key=pr.key ↔ h'=h ∧ j'=j))
    (hstored : t.exportedOf pr.key++m.stored=recordsOf seen pr.key++[pr.features])
    (hchains : t.chains=(s.setSlot h j m).chains) (hcur : t.curTs=s.curTs)
    (hexp : ∀ k, k≠pr.key → t.exportedOf k=s.exportedOf k) : Accounted p t (seen++[pr]) := by
  have hself : t.chains h j=m := by rw [hchains,Cache.setSlot_self]
  have hother {h' j' : Nat} (hne : ¬ (h'=h ∧ j'=j)) : t.chains h' j'=s.chains h' j' := by
    rw [hchains,Cache.setSlot_of_ne _ _ hne]
  have hforeign {h' j' : Nat} (hne : ¬ (h'=h ∧ j'=j)) (hused : (s.chains h' j').inUse) : (s.chains h' j').key≠pr.key :=
    fun heq => hne ((hold h' j' hused).mp heq)
  constructor
  · intro h' j' hused
    by_cases hat : h'=h ∧ j'=j
    · rw [hat.1,hat.2,hself]
      exact hok
    · rw [hother hat] at hused ⊢
      exact hs.slot h' j' hused
  · intro h' j'
    rw [hcur]
    by_cases hat : h'=h ∧ j'=j
    · rw [hat.1,hat.2,hself]
      exact hlast
    · rw [hother hat]
      exact hs.accessed h' j'
  · intro h₁ i₁ h₂ i₂ hused₁ hused₂ heq
    by_cases hat₁ : h₁=h ∧ i₁=j <;> by_cases hat₂ : h₂=h ∧ i₂=j
    · exact ⟨hat₁.1.trans hat₂.1.symm,hat₁.2.trans hat₂.2.symm⟩
    · rw [hother hat₂] at hused₂ heq
      rw [hat₁.1,hat₁.2,hself,hkey] at heq
      exact absurd heq.symm (hforeign hat₂ hused₂)
    · rw [hother hat₁] at hused₁ heq
      rw [hat₂.1,hat₂.2,hself,hkey] at heq
      exact absurd heq (hforeign hat₁ hused₁)
    · rw [hother hat₁] at hused₁ heq
      rw [hother hat₂] at hused₂ heq
      exact hs.unique h₁ i₁ h₂ i₂ hused₁ hused₂ heq
  · intro h' j' hused
    by_cases hat : h'=h ∧ j'=j
    · rw [hat.1,hat.2,hself,hkey,hstored,recordsOf_concat,if_pos rfl]
    · rw [hother hat] at hused ⊢
      have hne := hforeign hat hused
      rw [hexp _ hne,recordsOf_concat,if_neg hne.symm,append_nil]
      exact hs.cached h' j' hused
  · intro k hk
    have hne : pr.key≠k := by
      have hhere := hk h j
      rw [hself,hkey] at hhere
      exact hhere hin
    rw [hexp k hne.symm,recordsOf_concat,if_neg hne,append_nil]
    refine hs.absent k fun h' j' hused => ?_
    by_cases hat : h'=h ∧ j'=j
    · have hkk := (hold h' j' hused).mpr hat
      exact fun heq => hne (hkk.symm.trans heq)
    · have hk' := hk h' j'
      rw [hother hat] at hk'
      exact hk' hused
end Accounted
end P4Benchmarks.StarFlow
