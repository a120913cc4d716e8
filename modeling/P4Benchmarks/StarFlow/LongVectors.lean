import Mathlib.Order.Interval.Finset.Nat
import P4Benchmarks.StarFlow.Lossless
/-! # Long vectors -/
namespace P4Benchmarks.StarFlow
open Set
variable {p : Params} {s t : Cache} {h j : Nat}
inductive Place where
  | stack (i : Nat)
  | slot (h j : Nat)
namespace Cache
def indexAt (s : Cache) : Place → Nat
  | .stack i => s.longVectorStack i
  | .slot h j => (s.chains h j).longVectorIdx

@[local simp] def Holds (p : Params) (s : Cache) : Place → Prop
  | .stack i => 1 ≤ i ∧ i ≤ s.stackTop
  | .slot h j => h<p.htLen ∧ j<p.lruChainLen ∧ (s.chains h j).inUse ∧
      (s.chains h j).longVectorIdx≠0

def Partitioned (p : Params) (s : Cache) : Prop :=
  BijOn s.indexAt {x | s.Holds p x} (Icc 1 (p.partition2Len-1)) ∧ s.stackTop≤p.partition2Len-1

structure Shared (p : Params) (s : Cache) : Prop where
  bij : BijOn s.indexAt {x | s.Holds p x} (Icc 1 (p.partition2Len-1))
  idle : ∀ h j, (s.chains h j).inUse=false ∨ (s.chains h j).allocAttempt=false → (s.chains h j).longVectorIdx=0

structure Quiet (s t : Cache) : Prop where
  stack : t.longVectorStack=s.longVectorStack
  top : t.stackTop=s.stackTop
  idx : ∀ h j, (t.chains h j).longVectorIdx=(s.chains h j).longVectorIdx
  marks : ∀ h j, (s.chains h j).longVectorIdx=0 ∨ (t.chains h j).inUse=(s.chains h j).inUse ∧
      (t.chains h j).allocAttempt=(s.chains h j).allocAttempt

theorem Shared.partitioned (hs : s.Shared p) : s.Partitioned p := by
  have hin (i : Nat) (hi : i ∈ Finset.Icc 1 s.stackTop) : s.Holds p (.stack i) := Finset.mem_Icc.mp hi
  have hle : (Finset.Icc 1 s.stackTop).card≤(Finset.Icc 1 (p.partition2Len-1)).card := by
    refine Finset.card_le_card_of_injOn s.longVectorStack (fun i hi => ?_) fun i hi k hk heq => ?_
    · rw [Finset.coe_Icc]
      exact hs.bij.mapsTo (x := .stack i) (hin i hi)
    · exact Place.stack.inj (hs.bij.injOn (hin i hi) (hin k hk) heq)
  exact ⟨hs.bij,by simpa using hle⟩

theorem Shared.quiet (hs : s.Shared p) (hst : s.Quiet t) : t.Shared p := by
  have hat : t.indexAt=s.indexAt := by
    funext x
    cases x <;> simp [indexAt,hst.stack,hst.idx]
  have hholds : t.Holds p=s.Holds p := by
    funext x
    cases x with
    | stack i => simp [hst.top]
    | slot h j => rcases hst.marks h j with hm | hm <;> simp [hst.idx,hm]
  refine ⟨by rw [hat,hholds]; exact hs.bij,fun h j hfree => ?_⟩
  rw [hst.idx]
  rcases hst.marks h j with hm | hm
  · exact hm
  · rw [hm.1,hm.2] at hfree
    exact hs.idle h j hfree

theorem Quiet.of_chains {m : Mclfr} (hchains : t.chains=(s.setSlot h j m).chains)
    (hstack : t.longVectorStack=s.longVectorStack) (htop : t.stackTop=s.stackTop)
    (hidx : m.longVectorIdx=(s.chains h j).longVectorIdx)
    (hmarks : (s.chains h j).longVectorIdx=0 ∨ m.inUse=(s.chains h j).inUse ∧
      m.allocAttempt=(s.chains h j).allocAttempt) : s.Quiet t := by
  refine ⟨hstack,htop,fun h' j' => ?_,fun h' j' => ?_⟩ <;> rw [hchains] <;> by_cases hat : h'=h ∧ j'=j
  · rw [hat.1,hat.2,setSlot_self,hidx]
  · rw [setSlot_of_ne _ _ hat]
  · rw [hat.1,hat.2,setSlot_self]
    exact hmarks
  · rw [setSlot_of_ne _ _ hat]
    exact .inr ⟨rfl,rfl⟩

theorem Shared.move (hs : s.Shared p) {m : Mclfr} {a b : Place} (hchains : t.chains=(s.setSlot h j m).chains)
    (hm : m.inUse=false ∨ m.allocAttempt=false → m.longVectorIdx=0) (ha : s.Holds p a) (hab : t.indexAt b=s.indexAt a)
    (hother : ∀ x, s.Holds p x → x≠a → t.indexAt x=s.indexAt x) (hholds : ∀ x, t.Holds p x ↔ x=b ∨ s.Holds p x ∧ x≠a) :
    t.Shared p := by
  constructor
  · have hrest := (hs.bij.sdiff_singleton ha).congr fun x hx => (hother x hx.1 hx.2).symm
    have hset : {x | t.Holds p x}=insert b ({x | s.Holds p x} \ {a}) := ext hholds
    have hall := hrest.insert (a := b) (by simp [hab])
    rwa [hab,insert_sdiff_singleton,insert_eq_of_mem (hs.bij.mapsTo ha),← hset] at hall
  · intro h' j'
    rw [hchains]
    by_cases hat : h'=h ∧ j'=j
    · rw [hat.1,hat.2,setSlot_self]
      exact hm
    · rw [setSlot_of_ne _ _ hat]
      exact hs.idle h' j'

theorem Shared.evictMfr (hs : s.Shared p) (hh : h<p.htLen) (hj : j<p.lruChainLen)
    (hused : (s.chains h j).inUse) : (s.evictMfr h j).Shared p := by
  by_cases hidx : (s.chains h j).longVectorIdx=0
  · unfold Cache.evictMfr freeLongPointer
    rw [if_pos hidx]
    exact hs.quiet (.of_chains rfl rfl rfl hidx.symm (.inl hidx))
  · have hchains := s.evictMfr_chains h j
    have htop : (s.evictMfr h j).stackTop=s.stackTop+1 := by simp [Cache.evictMfr,freeLongPointer,hidx,Cache.setSlot]
    have hstack : (s.evictMfr h j).longVectorStack =
        Function.update s.longVectorStack (s.stackTop+1) (s.chains h j).longVectorIdx := by
      simp [Cache.evictMfr,freeLongPointer,hidx,Cache.setSlot]
    refine hs.move (a := .slot h j) (b := .stack (s.stackTop+1)) hchains (fun _ => rfl)
      ⟨hh,hj,hused,hidx⟩ (by simp [indexAt,hstack]) ?_ ?_
    · rintro (i | ⟨h',j'⟩) hx hne
      · exact (congrFun hstack i).trans (Function.update_of_ne (by have := hx.2; omega) _ _)
      · simp only [indexAt,hchains]
        rw [setSlot_of_ne _ _ fun hat => hne (by rw [hat.1,hat.2])]
    · rintro (i | ⟨h',j'⟩)
      · simp only [Holds,htop,Place.stack.injEq,ne_eq,reduceCtorEq,not_false_eq_true,and_true]
        omega
      · by_cases hat : h'=h ∧ j'=j
        · simp [hchains,hat.1,hat.2,Mclfr.released]
        · simp [hchains,setSlot_of_ne _ _ hat,hat]

theorem Shared.allocLongPointer (hs : s.Shared p) (hh : h<p.htLen) (hj : j<p.lruChainLen)
    (hused : (s.chains h j).inUse) : (s.allocLongPointer p h j).Shared p := by
  unfold Cache.allocLongPointer
  split
  · rename_i hfirst
    have hzero := hs.idle h j (.inr hfirst.1)
    split
    · rename_i htop
      have hheld : s.Holds p (.stack s.stackTop) := ⟨htop,Nat.le_refl _⟩
      have hpos : s.longVectorStack s.stackTop≠0 :=
        Nat.ne_of_gt (hs.bij.mapsTo (x := .stack s.stackTop) hheld).1
      refine hs.move (a := .stack s.stackTop) (b := .slot h j) rfl (fun hfree => ?_) hheld
        (by simp [indexAt,Cache.setSlot]) ?_ ?_
      · simp [hused] at hfree
      · rintro (i | ⟨h',j'⟩) hx hne
        · rfl
        · refine congrArg Mclfr.longVectorIdx (setSlot_of_ne _ _ ?_)
          rintro ⟨rfl,rfl⟩
          exact hx.2.2.2 hzero
      · rintro (i | ⟨h',j'⟩)
        · simp only [Holds,reduceCtorEq,false_or,ne_eq,Place.stack.injEq]
          omega
        · by_cases hat : h'=h ∧ j'=j
          · simp [Cache.setSlot,hat.1,hat.2,hh,hj,hused,hpos]
          · simp [setSlot_of_ne _ _ hat,hat]
    · exact hs.quiet (.of_chains rfl rfl rfl hzero.symm (.inl hzero))
  · exact hs
variable {seen : List PacketRecord} {pr : PacketRecord}

theorem append_quiet {width : Nat} (hwidth : width ≤ mclfrMaxlen) (hroom : (s.chains h j).pktCt < width) :
    s.Quiet (append width s h j pr) := by
  obtain ⟨n,hn,hchains,hstack,htop⟩ : ∃ n < width, (append width s h j pr).chains = (s.setSlot h j
      (Mclfr.appendRecord { s.chains h j with pktCt := n } pr s.curTs)).chains ∧
      (append width s h j pr).longVectorStack = s.longVectorStack ∧ (append width s h j pr).stackTop = s.stackTop := by
    unfold append
    split
    · exact ⟨0,Nat.zero_lt_of_lt hroom,by simp [Cache.appendRecord,exportMfr,setSlot],rfl,rfl⟩
    · rename_i hrest
      have hne : (s.chains h j).pktCt+1 ≠ width := fun heq => hrest (by rw [heq,Nat.mod_self])
      exact ⟨(s.chains h j).pktCt+1,by omega,by simp [Cache.appendRecord,setSlot],rfl,rfl⟩
  refine .of_chains hchains hstack htop ?_ (.inr ⟨rfl,rfl⟩)
  exact if_neg (Nat.ne_of_lt (Nat.lt_of_lt_of_le hn hwidth))

section
variable (hwidth : p.partition1Width+p.partition2Width ≤ mclfrMaxlen) (hs : s.Shared p) (hrun : Running p s seen)
include hwidth hs hrun

theorem Shared.pipeline (hkey : pr.key≠.zero) (hwrap : s.curTs+1 < 2^64) : (s.pipeline p pr).Shared p := by
  have hh : p.hashVal pr.key<p.htLen := Nat.mod_lt _ (Nat.div_pos p.lruChainLen_le p.one_le_lruChainLen)
  obtain ⟨type,j,hget,hfound⟩ := getSlotId_spec p (s.chains (p.hashVal pr.key)) pr.key (hrun.accessed _ 0) hwrap
  unfold Cache.pipeline
  simp only [hget]
  cases hfound with
  | slotFree hj _ hfree _ =>
    have hidx := hs.idle _ j (.inl hfree)
    exact hs.quiet (.of_chains rfl rfl rfl hidx.symm (.inl hidx))
  | slotEvict hj _ hused =>
    have hidx : ((s.evictMfr (p.hashVal pr.key) j).chains (p.hashVal pr.key) j).longVectorIdx = 0 := by
      rw [s.evictMfr_chains,setSlot_self]
      rfl
    dsimp only
    rw [if_pos hj]
    exact (hs.evictMfr hh hj (hused j hj)).quiet (.of_chains rfl rfl rfl hidx.symm (.inl hidx))
  | slotMatch hj hmatch =>
    have hused := hrun.inUse_of_match hkey hmatch
    obtain ⟨m,top,halloc,-,hroom⟩ := s.allocLongPointer_eq p (p.hashVal pr.key) j (hrun.slot _ _ hused).room
    have hslot : (s.allocLongPointer p (p.hashVal pr.key) j).chains (p.hashVal pr.key) j = m := by
      rw [halloc]
      exact s.setSlot_self _ _ _
    have hmax : p.width m ≤ mclfrMaxlen := by
      unfold Params.width
      split <;> omega
    dsimp only
    rw [appendMatch_eq,hslot]
    exact (hs.allocLongPointer hh hj hused).quiet (append_quiet hmax (by rwa [hslot]))

theorem Shared.packetHandler {last : Nat} (hclock : s.Clock last) {pkt : IpPacket}
    (hle : last ≤ pkt.getMicrosecondTs) (hst : s.packetHandler p pkt = some t) : t.Shared p := by
  obtain ⟨harrive,-,hwrap⟩ := hrun.arrive hclock hle
  unfold Cache.packetHandler at hst
  split at hst
  · rename_i pr hrec
    have hcount : Shared p { s.arrive pkt with globalPktCt := (s.arrive pkt).globalPktCt+1 } := ⟨hs.bij,hs.idle⟩
    have hall := hcount.pipeline hwidth ⟨harrive.congr rfl rfl rfl,harrive.fresh⟩ (IpPacket.key_ne_zero hrec) hwrap
    -- what follows the pipeline ends the program or leaves the tables alone
    simp only [handlePacket,printStats] at hst
    grind
  · cases hst
    exact ⟨hs.bij,hs.idle⟩

theorem Shared.exec {last : Nat} (hclock : s.Clock last) {packets : List IpPacket}
    (hle : ∀ pkt ∈ packets, last ≤ pkt.getMicrosecondTs)
    (hsorted : packets.Pairwise fun a b => a.getMicrosecondTs ≤ b.getMicrosecondTs)
    (hst : Lib.exec (Cache.packetHandler p) s packets = some t) : t.Shared p := by
  induction packets generalizing s seen last with
  | nil =>
    cases hst
    exact hs
  | cons pkt rest ih =>
    obtain ⟨hpkt,hrest⟩ := List.pairwise_cons.mp hsorted
    obtain ⟨u,hstep,hexec⟩ := Lib.exec_cons_eq_some.mp hst
    have hfirst := hle pkt List.mem_cons_self
    obtain ⟨v,hv,hvclock,-,hiff⟩ := hrun.packetHandler hwidth hclock hfirst
    obtain ⟨-,rfl⟩ := (hiff u).mp hstep
    exact ih (hs.packetHandler hwidth hrun hclock hfirst hstep) hv hvclock hpkt hrest hexec
end

theorem Shared.flushSlot (hs : s.Shared p) {ij : Nat × Nat} (hij : ij ∈ slots p) : (s.flushSlot ij).Shared p := by
  simp only [slots,List.mem_flatMap,List.mem_map,List.mem_range] at hij
  obtain ⟨h,hh,j,hj,rfl⟩ := hij
  unfold Cache.flushSlot
  split
  · rename_i hused
    have hevict := hs.evictMfr hh hj hused
    exact ⟨hevict.bij,hevict.idle⟩
  · exact hs

theorem initTables_shared (p : Params) : (initTables p).Shared p := by
  have hat (i : Nat) (hi : i ∈ Icc 1 (p.partition2Len-1)) :
      (initTables p).indexAt (.stack i)=i := if_pos (by have := hi.1; have := hi.2; omega)
  refine ⟨⟨?_,?_,?_⟩,fun _ _ _ => rfl⟩
  · rintro (i | ⟨h,j⟩) hx
    · rw [hat i hx]
      exact hx
    · exact absurd rfl hx.2.2.2
  · rintro (i | ⟨h,j⟩) hx (k | ⟨h',j'⟩) hy heq
    · rw [hat i hx,hat k hy] at heq
      rw [heq]
    all_goals first | exact absurd rfl hx.2.2.2 | exact absurd rfl hy.2.2.2
  · intro i hi
    exact ⟨.stack i,hi,hat i hi⟩
end Cache

/-- If time does not go back and all records of a slot fit into it, the numbers are shared out after
every packet and at every point of the final flush. -/
theorem longVectors_partitioned (p : Params) (hwidth : p.partition1Width+p.partition2Width ≤ mclfrMaxlen)
    {packets : List IpPacket} (hsorted : packets.Pairwise fun a b => a.getMicrosecondTs ≤ b.getMicrosecondTs)
    (hrun : Lib.exec (Cache.packetHandler p) (Cache.initTables p) packets = some s) :
    s.Partitioned p ∧ ∀ n, (((Cache.slots p).take n).foldl Cache.flushSlot s).Partitioned p := by
  have hs : s.Shared p := (Cache.initTables_shared p).exec hwidth (initTables_running p)
    (initTables_clock p) (fun _ _ => Nat.zero_le _) hsorted hrun
  refine ⟨hs.partitioned,fun n => Cache.Shared.partitioned ?_⟩
  refine List.foldlRecOn _ _ hs fun u hu ij hij => ?_
  exact hu.flushSlot (List.mem_of_mem_take hij)

def pooledParams : Params := { tinyParams with partition2Len := 3, one_le_partition2Len := by decide }

theorem mixedTrace_partitioned :
    ∃ s, Lib.exec (Cache.packetHandler pooledParams) (Cache.initTables pooledParams) mixedTrace =
      some s ∧ s.Partitioned pooledParams := by
  obtain ⟨s,hs⟩ := Option.isSome_iff_exists.mp (show (Lib.exec (Cache.packetHandler pooledParams)
    (Cache.initTables pooledParams) mixedTrace).isSome by decide)
  exact ⟨s,hs,(longVectors_partitioned pooledParams (by decide) (by decide) hs).1⟩

def strayParams : Params :=
  { pooledParams with
    lruChainLen := 1
    unset := fun _ => 1
    beyond := fun _ => { Mclfr.cleared with longVectorIdx := 1 }
    one_le_lruChainLen := Nat.one_pos
    lruChainLen_le := by decide }

def wideSlotParams : Params := { pooledParams with partition1Width := 33, one_le_partition1Width := by decide }

/-- A packet of a second flow whose time is before that of the first one gives vector 1 back twice,
and the last of 33 packets of a flow is taken for the number of a long vector. -/
theorem longVectors_mixed :
    (∃ s, Lib.exec (Cache.packetHandler strayParams) (Cache.initTables strayParams)
        [flowPacket 0 1,flowPacket 10 1,flowPacket 5 2] = some s ∧ ¬ s.Partitioned strayParams) ∧
      ∃ s, Lib.exec (Cache.packetHandler wideSlotParams) (Cache.initTables wideSlotParams)
        (List.replicate 33 (flowPacket 0 1)) = some s ∧ ¬ s.Partitioned wideSlotParams := by
  constructor
  · refine ⟨_,rfl,fun h => ?_⟩
    exact absurd h.2 (by decide)
  · have hlast : (Lib.exec (Cache.packetHandler wideSlotParams) (Cache.initTables wideSlotParams)
        (List.replicate 33 (flowPacket 0 1))).map (fun s => ((s.chains 0 0).inUse,(s.chains 0 0).longVectorIdx)) =
        some (true,2621441) := by decide +kernel
    obtain ⟨s,hs,hslot⟩ := Option.map_eq_some_iff.mp hlast
    obtain ⟨hused,hidx⟩ := Prod.mk.inj hslot
    refine ⟨s,hs,fun h => ?_⟩
    have hmem := (h.1.mapsTo (x := .slot 0 0) ⟨by decide,by decide,hused,by simp [hidx]⟩).2
    rw [show s.indexAt (.slot 0 0) = 2621441 from hidx] at hmem
    exact absurd hmem (by decide)
end P4Benchmarks.StarFlow
