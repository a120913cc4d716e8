import P4Benchmarks.StarFlow.Packet
/-! # No record is lost -/
namespace P4Benchmarks.StarFlow
open List Option Nat Cache
variable {p : Params} {s t : Cache} {seen : List PacketRecord} {pr : PacketRecord} {h j : Nat}
namespace Cache

/-- The packet does not end the program: training goes on, and statistics are printed only after
a record was exported. -/
def Proceeds (p : Params) (s : Cache) (pr : PacketRecord) : Prop :=
  ¬ s.trainingOver p ∧ ((s.globalPktCt+1)%updateCt=0 → s.globalMfCt≠0 ∨ s.exportsNow p pr)

instance (p : Params) (s : Cache) (pr : PacketRecord) : Decidable (s.Proceeds p pr) :=
  inferInstanceAs (Decidable (_ ∧ _))

def MayFinish (p : Params) (s : Cache) (pkt : IpPacket) : Prop :=
  match pkt.packetRecord (pkt.curTs s.startTs) with
  | some pr => (s.arrive pkt).Proceeds p pr
  | none => True

instance (p : Params) (s : Cache) (pkt : IpPacket) : Decidable (s.MayFinish p pkt) :=
  match h : pkt.packetRecord (pkt.curTs s.startTs) with
  | some pr => decidable_of_iff ((s.arrive pkt).Proceeds p pr) (by simp [MayFinish,h])
  | none => .isTrue (by simp [MayFinish,h])
end Cache

def packetRecords : Nat → List IpPacket → List PacketRecord
  | _, [] => []
  | startTs, pkt::rest =>
    (pkt.packetRecord (pkt.curTs startTs)).toList++packetRecords (pkt.startTs startTs) rest

/-- The program handles every packet and flushes the cache, and then the exported records of each
flow are its own packet records. -/
def Lossless (p : Params) (packets : List IpPacket) : Prop :=
  ∃ s, Lib.exec (Cache.packetHandler p) (initTables p) packets = some s ∧
    ∀ k, (s.finalFlush p).exportedOf k = recordsOf (packetRecords 0 packets) k

theorem Cache.exportsNow_pktCt (p : Params) (s : Cache) (pr : PacketRecord) (n : Nat) :
    exportsNow p { s with globalPktCt := n } pr=s.exportsNow p pr := by
  have halloc (h j : Nat) : (allocLongPointer p { s with globalPktCt := n } h j).chains =
        (s.allocLongPointer p h j).chains := by
    unfold allocLongPointer
    split
    · split <;> rfl
    · rfl
  unfold exportsNow
  simp [halloc]

theorem IpPacket.getMicrosecondTs_lt (pkt : IpPacket) : pkt.getMicrosecondTs+1<2^64 := by
  unfold getMicrosecondTs
  omega

theorem IpPacket.key_ne_zero {pkt : IpPacket} {curTs : Nat} (hrec : pkt.packetRecord curTs = some pr) :
    pr.key≠.zero := by
  have hproto {proto : BitVec 8} (hp : pkt.proto=proto) (hne : proto≠0) : pkt.setKey≠.zero := by
    intro heq
    exact hne (hp.symm.trans (congrArg Key.proto heq))
  unfold packetRecord at hrec
  split at hrec
  · rename_i htcp
    cases hrec
    exact hproto htcp (by decide)
  · split at hrec
    · rename_i hudp
      cases hrec
      exact hproto hudp (by decide)
    · cases hrec

structure Cache.Clock (s : Cache) (last : Nat) : Prop where
  start_le : s.startTs≤last
  curTs_eq : s.curTs=last-s.startTs
  unset : s.startTs=0 → last=0
  last_lt : last+1<2^64

theorem Cache.Clock.arrive {last : Nat} {pkt : IpPacket} (hs : s.Clock last) (hle : last≤pkt.getMicrosecondTs) :
    (s.arrive pkt).Clock pkt.getMicrosecondTs ∧ s.curTs≤pkt.curTs s.startTs := by
  have hlt := pkt.getMicrosecondTs_lt
  have hstart := hs.start_le
  have hcur := hs.curTs_eq
  have hunset := hs.unset
  have hbegin : pkt.startTs s.startTs≤pkt.getMicrosecondTs := by
    unfold IpPacket.startTs
    split <;> omega
  have hdiff : pkt.curTs s.startTs=pkt.getMicrosecondTs-pkt.startTs s.startTs := by
    unfold IpPacket.curTs
    rw [Nat.add_comm,Nat.add_sub_assoc hbegin,add_mod_left,mod_eq_of_lt (by omega)]
  refine ⟨⟨hbegin,hdiff,?_,hlt⟩,?_⟩
  · intro hzero
    change pkt.startTs s.startTs=0 at hzero
    unfold IpPacket.startTs at hzero
    split at hzero
    · exact hzero
    · contradiction
  · rw [hdiff]
    unfold IpPacket.startTs
    split <;> omega

theorem Running.arrive (hs : Running p s seen) {last : Nat} (hclock : s.Clock last) {pkt : IpPacket}
    (hle : last ≤ pkt.getMicrosecondTs) :
    Running p (s.arrive pkt) seen ∧ (s.arrive pkt).Clock pkt.getMicrosecondTs ∧ (s.arrive pkt).curTs+1 < 2^64 := by
  obtain ⟨harrived,hlater⟩ := hclock.arrive hle
  have hcur := harrived.curTs_eq
  have hlt := harrived.last_lt
  exact ⟨⟨hs.later hlater,hs.fresh⟩,harrived,by omega⟩

section
variable (hwidth : p.partition1Width+p.partition2Width ≤ mclfrMaxlen) (hs : Running p s seen)
include hwidth hs

theorem Running.handlePacket (hkey : pr.key≠.zero) (hwrap : s.curTs+1<2^64) :
    ∃ t, Running p t (seen++[pr]) ∧ t.startTs=s.startTs ∧ t.curTs=s.curTs ∧
      ∀ u, s.handlePacket p pr=some u ↔ s.Proceeds p pr ∧ t=u := by
  have hcounted : Running p { s with globalPktCt := s.globalPktCt+1 } seen := ⟨hs.congr rfl rfl rfl,hs.fresh⟩
  obtain ⟨ht,hpassed⟩ := hcounted.pipeline hwidth hkey hwrap
  generalize hpipe : Cache.pipeline p { s with globalPktCt := s.globalPktCt+1 } pr = t at ht hpassed
  have hpkt : t.globalPktCt=s.globalPktCt+1 := hpassed.pktCt
  have hmf : t.globalMfCt=s.globalMfCt+(s.exportsNow p pr).toNat := by
    rw [← s.exportsNow_pktCt p pr (s.globalPktCt+1)]
    exact hpassed.mfCt
  have hcur : t.curTs=s.curTs := hpassed.curTs
  have htrain : t.trainingOver p ↔ s.trainingOver p := by
    unfold trainingOver
    rw [hcur]
  have hzero : t.globalMfCt=0 ↔ ¬ (s.globalMfCt≠0 ∨ s.exportsNow p pr) := by
    rw [hmf]
    cases s.exportsNow p pr <;> simp
  refine ⟨t,ht,hpassed.startTs,hcur,fun u => ?_⟩
  unfold Cache.handlePacket Cache.Proceeds
  simp only [hpipe,bind_eq_bind,hpkt,printStats,← htrain]
  by_cases hdue : (s.globalPktCt+1)%Cache.updateCt=0
  · by_cases hnone : t.globalMfCt=0
    · simp [hdue,hnone,hzero.mp hnone]
    · have hsome := not_not.mp (mt hzero.mpr hnone)
      by_cases hover : t.trainingOver p <;> simp [hdue,hnone,hsome,hover]
  · by_cases hover : t.trainingOver p <;> simp [hdue,hover]

theorem Running.packetHandler {last : Nat} (hclock : s.Clock last) {pkt : IpPacket}
    (hle : last≤pkt.getMicrosecondTs) :
    ∃ t, Running p t (seen++(pkt.packetRecord (pkt.curTs s.startTs)).toList) ∧ t.Clock pkt.getMicrosecondTs ∧
    t.startTs=pkt.startTs s.startTs ∧ ∀ u, s.packetHandler p pkt=some u ↔ s.MayFinish p pkt ∧ t=u := by
  obtain ⟨harrive,harrived,hwrap⟩ := hs.arrive hclock hle
  unfold Cache.packetHandler Cache.MayFinish
  cases hrec : pkt.packetRecord (pkt.curTs s.startTs) with
  | none => exact ⟨s.arrive pkt,by simpa using harrive,harrived,rfl,fun u => by simp⟩
  | some pr =>
    have hkey := IpPacket.key_ne_zero hrec
    obtain ⟨t,ht,hstart,hcur,hiff⟩ := harrive.handlePacket hwidth hkey hwrap
    refine ⟨t,ht,⟨?_,?_,?_,harrived.last_lt⟩,hstart,hiff⟩
    · rw [hstart]
      exact harrived.start_le
    · rw [hcur,hstart]
      exact harrived.curTs_eq
    · rw [hstart]
      exact harrived.unset

theorem Running.exec {last : Nat} (hclock : s.Clock last)
    {packets : List IpPacket} (hle : ∀ pkt ∈ packets, last≤pkt.getMicrosecondTs)
    (hsorted : packets.Pairwise fun a b => a.getMicrosecondTs≤b.getMicrosecondTs) :
    ∃ t, Running p t (seen++packetRecords s.startTs packets) ∧ ∀ u, Lib.exec (Cache.packetHandler p) s packets=some u ↔
        Lib.EachStep (Cache.packetHandler p) (Cache.MayFinish p) s packets ∧ t=u := by
  induction packets generalizing s seen last with
  | nil => exact ⟨s,by simpa [packetRecords] using hs,fun u => by simp [Lib.EachStep]⟩
  | cons pkt rest ih =>
    obtain ⟨hpkt,hrest⟩ := pairwise_cons.mp hsorted
    obtain ⟨t,ht,htclock,hstart,hiff⟩ := hs.packetHandler hwidth hclock (hle pkt mem_cons_self)
    obtain ⟨u,hu,hrun⟩ := ih ht htclock hpkt hrest
    rw [hstart,append_assoc] at hu
    refine ⟨u,hu,fun v => ?_⟩
    rw [Lib.exec_cons_eq_some]
    constructor
    · rintro ⟨t',hstep,hexec⟩
      obtain ⟨hmay,rfl⟩ := (hiff t').mp hstep
      obtain ⟨heach,rfl⟩ := (hrun v).mp hexec
      exact ⟨⟨hmay,by rw [hstep]; exact heach⟩,rfl⟩
    · rintro ⟨heach,rfl⟩
      have hstep := (hiff t).mpr ⟨heach.head,rfl⟩
      exact ⟨t,hstep,(hrun u).mpr ⟨heach.tail hstep,rfl⟩⟩
end

theorem Accounted.flushSlot (hs : Accounted p s seen) (ij : Nat × Nat) :
    Accounted p (s.flushSlot ij) seen ∧
      ∀ h j, ((s.flushSlot ij).chains h j).inUse → (h,j)≠ij ∧ (s.chains h j).inUse := by
  unfold Cache.flushSlot
  by_cases hused : (s.chains ij.1 ij.2).inUse
  · rw [if_pos hused]
    refine ⟨(hs.evictMfr hused).1,fun h j hin => ?_⟩
    change ((s.evictMfr ij.1 ij.2).chains h j).inUse at hin
    rw [s.evictMfr_chains] at hin
    by_cases hat : h=ij.1 ∧ j=ij.2
    · rw [hat.1,hat.2,setSlot_self] at hin
      exact absurd hin (by simp [Mclfr.released])
    · rw [setSlot_of_ne _ _ hat] at hin
      exact ⟨fun heq => hat (Prod.ext_iff.mp heq),hin⟩
  · rw [if_neg hused]
    refine ⟨hs,fun h j hin => ⟨?_,hin⟩⟩
    rintro rfl
    exact hused hin

theorem Accounted.foldl_flushSlot (hs : Accounted p s seen) (slots : List (Nat × Nat)) :
    Accounted p (slots.foldl Cache.flushSlot s) seen ∧
      ∀ h j, ((slots.foldl Cache.flushSlot s).chains h j).inUse → (h,j) ∉ slots ∧ (s.chains h j).inUse := by
  induction slots generalizing s with
  | nil => exact ⟨hs,fun h j hin => ⟨not_mem_nil,hin⟩⟩
  | cons ij rest ih =>
    obtain ⟨ht,hfirst⟩ := hs.flushSlot ij
    obtain ⟨hu,hrest⟩ := ih ht
    refine ⟨hu,fun h j hin => ?_⟩
    obtain ⟨hmem,hin'⟩ := hrest h j hin
    obtain ⟨hne,hin''⟩ := hfirst h j hin'
    exact ⟨by simp [hne,hmem],hin''⟩

theorem Accounted.finalFlush (hs : Accounted p s seen) (k : Key) :
    (s.finalFlush p).exportedOf k = recordsOf seen k := by
  obtain ⟨ht,hempty⟩ := hs.foldl_flushSlot (Cache.slots p)
  refine ht.absent k fun h j hin => ?_
  have hok := ht.slot h j hin
  have hht : 0<p.htLen := Nat.div_pos p.lruChainLen_le p.one_le_lruChainLen
  refine absurd ?_ (hempty h j hin).1
  refine mem_flatMap.mpr ⟨h,mem_range.mpr ?_,?_⟩
  · rw [hok.home]
    exact mod_lt _ hht
  · exact mem_map.mpr ⟨j,mem_range.mpr hok.pos,rfl⟩

theorem initTables_running (p : Params) : Running p (initTables p) [] where
  slot _ _ hin := absurd hin Bool.false_ne_true
  accessed _ _ := Nat.le_refl _
  unique _ _ _ _ hin := absurd hin Bool.false_ne_true
  cached _ _ hin := absurd hin Bool.false_ne_true
  absent _ _ := rfl
  fresh _ _ _ := rfl

theorem initTables_clock (p : Params) : (initTables p).Clock 0 :=
  ⟨Nat.le_refl _,rfl,fun _ => rfl,by decide⟩

/-- The cache exports the records of each flow once and in order exactly if no packet of the trace
ends the program. -/
theorem lossless_iff (p : Params) (hwidth : p.partition1Width+p.partition2Width ≤ mclfrMaxlen)
    (packets : List IpPacket)
    (hsorted : packets.Pairwise fun a b => a.getMicrosecondTs ≤ b.getMicrosecondTs) :
    Lossless p packets ↔ Lib.EachStep (Cache.packetHandler p) (Cache.MayFinish p) (initTables p) packets := by
  obtain ⟨t,ht,hrun⟩ := (initTables_running p).exec hwidth (initTables_clock p) (fun _ _ => Nat.zero_le _) hsorted
  constructor
  · rintro ⟨s,hexec,_⟩
    exact ((hrun s).mp hexec).1
  · intro heach
    exact ⟨t,(hrun t).mpr ⟨heach,rfl⟩,ht.finalFlush⟩

def tinyParams : Params where
  trainingTime := 0
  lruChainLen := 2
  partition1Len := 2
  partition1Width := 2
  partition2Len := 1
  partition2Width := 0
  hash := fun _ => 0
  unset := fun _ => 0
  beyond := fun _ => .cleared
  one_le_lruChainLen := by decide
  lruChainLen_le := by decide
  one_le_partition1Width := by decide
  one_le_partition2Len := by decide

def flowPacket (usec i : Nat) : IpPacket where
  sec := 1
  usec := .ofNat 32 usec
  src := .ofNat 32 i
  dst := 0
  proto := 6
  source := 80
  dest := 80
  thFlags := 0
  len := 40

def mixedTrace : List IpPacket :=
  [flowPacket 0 1,flowPacket 0 2,flowPacket 1 1,flowPacket 2 1,flowPacket 3 3,flowPacket 4 2]

theorem mixedTrace_lossless : Lossless tinyParams mixedTrace :=
  (lossless_iff tinyParams (by decide) mixedTrace (by decide)).mpr (by decide)
variable (hash : Key → Nat)
def wideParams : Params where
  trainingTime := 0
  lruChainLen := 10000
  partition1Len := 10000
  partition1Width := 5
  partition2Len := 2048
  partition2Width := 16
  hash := hash
  unset := fun _ => 0
  beyond := fun _ => .cleared
  one_le_lruChainLen := by decide
  lruChainLen_le := by decide
  one_le_partition1Width := by decide
  one_le_partition2Len := by decide

def newFlows (n : Nat) : List IpPacket := (List.range n).map (flowPacket 0)

structure Cache.Filled (s : Cache) (n : Nat) : Prop where
  used : ∀ j<n, (s.chains 0 j).inUse ∧ (s.chains 0 j).key=(flowPacket 0 j).setKey
  unused : ∀ j, n≤j → s.chains 0 j=.cleared
  accessed : (s.chains 0 0).lastAccessTs=0
  pktCt : s.globalPktCt=n
  mfCt : s.globalMfCt=0
  clock : s.startTs=0 ∨ s.startTs=1000000

theorem flowPacket_key_ne {i j : Nat} (hi : i<10000) (hj : j<10000) (hne : i≠j) :
    (flowPacket 0 i).setKey≠(flowPacket 0 j).setKey := by
  intro heq
  have hsrc := congrArg (fun k => k.src.toNat) heq
  simp only [IpPacket.setKey,flowPacket,BitVec.toNat_ofNat] at hsrc
  omega

theorem Cache.Filled.slotFree {n : Nat} (hs : s.Filled n) (hn : n<10000) (unset : Nat) :
    getSlotId (wideParams hash) (s.chains 0) (flowPacket 0 n).setKey 0 unset = (.slotFree,n) := by
  obtain ⟨type,j,hget,hslot⟩ := getSlotId_spec (wideParams hash) (s.chains 0)
    (flowPacket 0 n).setKey (Nat.le_of_eq hs.accessed) (by decide)
  have hforeign (i : Nat) : (s.chains 0 i).key≠(flowPacket 0 n).setKey := by
    by_cases hin : i<n
    · rw [(hs.used i hin).2]
      exact flowPacket_key_ne (by omega) hn (by omega)
    · rw [hs.unused i (by omega)]
      intro heq
      have hproto : (0 : BitVec 8)=6 := congrArg Key.proto heq
      exact absurd hproto (by decide)
  have hnext : (s.chains 0 n).inUse=false := by rw [hs.unused n (Nat.le_refl n)]; rfl
  cases hslot with
  | slotMatch _ hkey => exact absurd hkey (hforeign j)
  | slotFree _ _ hfree hfirst =>
    have hjn : j=n := by
      rcases Nat.lt_trichotomy j n with hlt | heq | hgt
      · rw [(hs.used j hlt).1] at hfree
        exact absurd hfree (by decide)
      · exact heq
      · rw [hfirst n hgt] at hnext
        exact absurd hnext (by decide)
    rw [hget,hjn]
  | slotEvict _ _ hused =>
    rw [hused n hn] at hnext
    exact absurd hnext (by decide)

theorem Cache.Filled.packetHandler {n : Nat} (hs : s.Filled n) (hn : n<10000) :
    ∃ t : Cache, t.Filled (n+1) ∧ s.packetHandler (wideParams hash) (flowPacket 0 n) =
      if (n+1)%updateCt=0 then none else some t := by
  have hhash : (wideParams hash).hashVal (flowPacket 0 n).setKey=0 := by
    have hone : (wideParams hash).htLen=1 := by simp [Params.htLen,wideParams]
    rw [Params.hashVal,hone,mod_one]
  have hclock : (flowPacket 0 n).curTs s.startTs=0 ∧ (flowPacket 0 n).startTs s.startTs=1000000 := by
    have hts : (flowPacket 0 n).getMicrosecondTs=1000000 := by simp [IpPacket.getMicrosecondTs,flowPacket]
    rcases hs.clock with h | h <;> simp [IpPacket.curTs,IpPacket.startTs,hts,h]
  obtain ⟨hcur,hstart⟩ := hclock
  have hmod : s.globalPktCt+1=n+1 := by rw [hs.pktCt]
  have hrec : (flowPacket 0 n).packetRecord 0=some ⟨(flowPacket 0 n).setKey,0,⟨1,40,0⟩⟩ := rfl
  let u : Cache := { s.arrive (flowPacket 0 n) with
    globalPktCt := (s.arrive (flowPacket 0 n)).globalPktCt+1 }
  refine ⟨initMfr u 0 n ⟨(flowPacket 0 n).setKey,0,⟨1,40,0⟩⟩,⟨?_,?_,?_,hmod,hs.mfCt,.inr hstart⟩,?_⟩
  · intro j hj
    by_cases hjn : j=n
    · subst hjn
      simp [initMfr,Mclfr.initMfr,Mclfr.appendRecord]
    · have hlt := hs.used j (by omega)
      simpa [u,initMfr,setSlot,Cache.arrive,hjn] using hlt
  · intro j hj
    have hjn : j≠n := by omega
    simpa [u,initMfr,setSlot,Cache.arrive,hjn] using hs.unused j (by omega)
  · by_cases h0 : 0=n
    · subst h0
      simpa [u,initMfr,Mclfr.initMfr,Mclfr.appendRecord,Cache.arrive] using hcur
    · simpa [u,initMfr,setSlot,Cache.arrive,h0] using hs.accessed
  · have hpipe : u.pipeline (wideParams hash) ⟨(flowPacket 0 n).setKey,0,⟨1,40,0⟩⟩ =
        u.initMfr 0 n ⟨(flowPacket 0 n).setKey,0,⟨1,40,0⟩⟩ := by
      simp [u,pipeline,Cache.arrive,hhash,hcur,hs.slotFree hash hn]
    have htrain (v : Cache) : ¬ v.trainingOver (wideParams hash) := fun h => Nat.lt_irrefl 0 h.1
    have hmf : (u.initMfr 0 n ⟨(flowPacket 0 n).setKey,0,⟨1,40,0⟩⟩).globalMfCt=0 := hs.mfCt
    have hpkt : (u.initMfr 0 n ⟨(flowPacket 0 n).setKey,0,⟨1,40,0⟩⟩).globalPktCt=n+1 := hmod
    unfold Cache.packetHandler Cache.handlePacket
    rw [hcur,hrec]
    dsimp only
    rw [hpipe]
    simp only [bind_eq_bind,printStats,hpkt,hmf,htrain]
    by_cases hdue : (n+1)%updateCt=0 <;> simp [hdue]

theorem newFlows_filled {n : Nat} (hn : n<10000) :
    ∃ s, Lib.exec (Cache.packetHandler (wideParams hash)) (initTables (wideParams hash))
      (newFlows n)=some s ∧ s.Filled n := by
  induction n with
  | zero =>
    refine ⟨_,rfl,?_,fun _ _ => rfl,rfl,rfl,rfl,.inl rfl⟩
    intro j hj
    exact absurd hj (Nat.not_lt_zero j)
  | succ n ih =>
    obtain ⟨s,hexec,hs⟩ := ih (lt_of_succ_lt hn)
    obtain ⟨t,ht,hstep⟩ := hs.packetHandler hash (lt_of_succ_lt hn)
    rw [if_neg] at hstep
    · refine ⟨t,?_,ht⟩
      rw [newFlows,range_succ,map_append,Lib.exec_append]
      change (Lib.exec _ _ (newFlows n)).bind _=_
      rw [hexec,bind_some,map_singleton,Lib.exec_cons,hstep]
      rfl
    · rw [Cache.updateCt,mod_eq_of_lt hn]
      exact succ_ne_zero n

/-- With room for ten thousand flows, the statistics after the first packets of so many flows
divide by zero, whatever the hash. -/
theorem newFlows_not_lossless : ¬ ∃ hash, Lossless (wideParams hash) (newFlows 10000) := by
  rintro ⟨hash,s,hrun,_⟩
  obtain ⟨u,hexec,hu⟩ := newFlows_filled hash (n := 9999) (by decide)
  obtain ⟨v,_,hstep⟩ := hu.packetHandler hash (by decide)
  rw [newFlows,range_succ,map_append,Lib.exec_append] at hrun
  change (Lib.exec _ _ (newFlows 9999)).bind _=_ at hrun
  rw [hexec,bind_some,map_singleton,Lib.exec_cons,hstep,if_pos (by decide)] at hrun
  cases hrun
end P4Benchmarks.StarFlow
