import P4Benchmarks.StarFlow.Cache
/-! # The slot of a packet -/
namespace P4Benchmarks.StarFlow
open List Scan Option
variable {chain : Nat → Mclfr}
theorem scanChain_eq_none {key : Key} {ps : List Nat} {c : Scan} (h : ∀ i ∈ ps, (chain i).key≠key) :
    scanChain chain key ps c=(none,ps.foldl (visit chain) c) := by
  induction ps generalizing c with
  | nil => rfl
  | cons i ps ih =>
    rw [scanChain,if_neg (h i mem_cons_self)]
    exact ih fun k hk => h k (mem_cons_of_mem _ hk)

theorem scanChain_match {key : Key} {ps : List Nat} {c : Scan} (h : ¬ ∀ i ∈ ps, (chain i).key≠key) :
    ∃ i ∈ ps, (chain i).key=key ∧ (scanChain chain key ps c).1=some i := by
  induction ps generalizing c with
  | nil => exact absurd (by simp) h
  | cons i ps ih =>
    rw [scanChain]
    by_cases hi : (chain i).key=key
    · exact ⟨i,mem_cons_self,hi,by rw [if_pos hi]⟩
    · rw [if_neg hi]
      have hrest : ¬ ∀ i ∈ ps, (chain i).key≠key := by
        intro hps
        exact h (forall_mem_cons.mpr ⟨hi,hps⟩)
      obtain ⟨k,hk,hkey,hscan⟩ := ih hrest
      exact ⟨k,mem_cons_of_mem _ hk,hkey,hscan⟩

theorem foldl_visit_freePos (chain : Nat → Mclfr) (ps : List Nat) (c : Scan) : (ps.foldl (visit chain) c).freePos =
      c.freePos.or (ps.find? fun i => !(chain i).inUse) := by
  induction ps generalizing c with
  | nil => simp
  | cons i ps ih =>
    rw [foldl_cons,ih,List.find?_cons]
    cases hfree : c.freePos <;> cases hused : (chain i).inUse <;> simp [visit,hfree,hused]

theorem foldl_visit_oldestPos_mem {ps : List Nat} {c : Scan} {j : Nat}
    (h : (ps.foldl (visit chain) c).oldestPos=some j) : c.oldestPos=some j ∨ j ∈ ps := by
  induction ps generalizing c with
  | nil => exact .inl h
  | cons i ps ih =>
    rcases ih h with hi | hmem
    · simp only [visit] at hi
      split at hi
      · exact .inr (by simp [some.inj hi])
      · exact .inl hi
    · exact .inr (mem_cons_of_mem _ hmem)

theorem foldl_visit_oldestPos_ne (chain : Nat → Mclfr) (ps : List Nat) {c : Scan}
    (h : c.oldestPos≠none) : (ps.foldl (visit chain) c).oldestPos≠none := by
  induction ps generalizing c with
  | nil => exact h
  | cons i ps ih =>
    refine ih ?_
    simp only [visit]
    split <;> simp [h]

inductive SlotFound (p : Params) (chain : Nat → Mclfr) (key : Key) : SlotType → Nat → Prop
  | slotMatch {j : Nat} (hj : j<p.lruChainLen) (hkey : (chain j).key=key) :
      SlotFound p chain key .slotMatch j
  | slotFree {j : Nat} (hj : j<p.lruChainLen)
      (hkey : ∀ i<p.lruChainLen, (chain i).key≠key) (hfree : (chain j).inUse=false)
      (hfirst : ∀ i<j, (chain i).inUse) : SlotFound p chain key .slotFree j
  | slotEvict {j : Nat} (hj : j<p.lruChainLen)
      (hkey : ∀ i<p.lruChainLen, (chain i).key≠key)
      (hused : ∀ i<p.lruChainLen, (chain i).inUse) : SlotFound p chain key .slotEvict j
variable (p : Params)

/-- The position of the oldest slot is set if no slot was used after the current time. -/
theorem getSlotId_spec (chain : Nat → Mclfr) (key : Key) {curTs : Nat}
    (hnow : (chain 0).lastAccessTs ≤ curTs) (hwrap : curTs+1<2^64) :
    ∃ t j, (∀ unset, getSlotId p chain key curTs unset = (t,j)) ∧ SlotFound p chain key t j := by
  unfold getSlotId
  rw [Nat.mod_eq_of_lt hwrap]
  by_cases hkeys : ∀ i ∈ List.range p.lruChainLen, (chain i).key≠key
  · have hkeys' : ∀ i<p.lruChainLen, (chain i).key≠key := fun i hi => hkeys i (mem_range.mpr hi)
    rw [scanChain_eq_none hkeys]
    dsimp only
    rw [foldl_visit_freePos,none_or]
    cases hfind : (List.range p.lruChainLen).find? fun i => !(chain i).inUse with
    | some k =>
      rw [List.find?_range_eq_some] at hfind
      exact ⟨_,_,fun _ => rfl,.slotFree (mem_range.mp hfind.2.1) hkeys' (by simpa using hfind.1)
        fun i hi => by simpa using hfind.2.2 i hi⟩
    | none =>
      rw [List.find?_eq_none] at hfind
      -- the first visit sets the oldest position
      obtain ⟨n,hn⟩ : ∃ n, p.lruChainLen = n+1 := ⟨p.lruChainLen-1,by have := p.one_le_lruChainLen; omega⟩
      have hvisit : (visit chain ⟨none,none,curTs+1⟩ 0).oldestPos≠none := by simp [visit,Nat.lt_succ_of_le hnow]
      have hold := foldl_visit_oldestPos_ne chain ((List.range n).map Nat.succ) hvisit
      rw [← foldl_cons,← range_succ_eq_map,← hn] at hold
      obtain ⟨j,hj⟩ := ne_none_iff_exists'.mp hold
      have hmem := (foldl_visit_oldestPos_mem hj).resolve_left nofun
      refine ⟨_,j,fun _ => by rw [hj]; rfl,.slotEvict (mem_range.mp hmem) hkeys' fun i hi => ?_⟩
      simpa using hfind i (mem_range.mpr hi)
  · obtain ⟨j,hj,hkey,hscan⟩ := scanChain_match (c := ⟨none,none,curTs+1⟩) hkeys
    cases hres : scanChain chain key (List.range p.lruChainLen) ⟨none,none,curTs+1⟩ with
    | mk found c =>
      rw [hres] at hscan
      cases hscan
      exact ⟨_,j,fun _ => rfl,.slotMatch (mem_range.mp hj) hkey⟩

structure Mclfr.Marks (m m₀ : Mclfr) : Prop where
  inUse : m.inUse=m₀.inUse
  key : m.key=m₀.key
  pktCt : m.pktCt=m₀.pktCt
  packetVector : m.packetVector=m₀.packetVector
namespace Cache
variable (s : Cache)
@[simp] theorem setSlot_self (h j : Nat) (m : Mclfr) : (s.setSlot h j m).chains h j=m := by simp [setSlot]
theorem setSlot_of_ne {h j h' j' : Nat} (m : Mclfr) (hne : ¬ (h'=h ∧ j'=j)) :
    (s.setSlot h j m).chains h' j'=s.chains h' j' := by
  by_cases hh : h'=h
  · subst hh
    have hj : j'≠j := fun heq => hne ⟨rfl,heq⟩
    simp [setSlot,hj]
  · simp [setSlot,hh]

theorem setSlot_chains_of_eq {s t : Cache} {h j : Nat} {m : Mclfr} (hchains : t.chains=(s.setSlot h j m).chains)
    (m' : Mclfr) : (t.setSlot h j m').chains=(s.setSlot h j m').chains := by
  simp [setSlot,hchains]

theorem evictMfr_chains (h j : Nat) : (s.evictMfr h j).chains=(s.setSlot h j (s.chains h j).released).chains := by
  unfold evictMfr freeLongPointer
  split <;> rfl

theorem evictMfr_eq (h j : Nat) : ∃ stack top, s.evictMfr h j =
    { s with
      chains := (s.evictMfr h j).chains, longVectorStack := stack, stackTop := top } := by
  refine ⟨(s.evictMfr h j).longVectorStack,(s.evictMfr h j).stackTop,?_⟩
  unfold evictMfr freeLongPointer
  split <;> rfl

theorem allocLongPointer_eq (s : Cache) (h j : Nat) (hroom : (s.chains h j).pktCt<p.width (s.chains h j)) :
    ∃ m top, s.allocLongPointer p h j={ s.setSlot h j m with stackTop := top } ∧
      m.Marks (s.chains h j) ∧ m.pktCt<p.width m := by
  unfold allocLongPointer
  split
  · rename_i hlast
    have hlt (m : Mclfr) : (s.chains h j).pktCt<p.width m := by
      unfold Params.width
      split <;> omega
    split
    · exact ⟨_,_,rfl,⟨rfl,rfl,rfl,rfl⟩,hlt _⟩
    · exact ⟨_,s.stackTop,rfl,⟨rfl,rfl,rfl,rfl⟩,hlt _⟩
  · refine ⟨s.chains h j,s.stackTop,?_,⟨rfl,rfl,rfl,rfl⟩,hroom⟩
    simp [setSlot]

theorem appendMatch_eq (s : Cache) (h j : Nat) (pr : PacketRecord) :
    s.appendMatch p h j pr=append (p.width (s.chains h j)) s h j pr := by
  unfold appendMatch Params.width shortAppend longAppend
  split <;> rfl
end Cache
end P4Benchmarks.StarFlow
