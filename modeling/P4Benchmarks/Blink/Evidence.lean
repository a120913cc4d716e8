import P4Benchmarks.Lib.Execution
import P4Benchmarks.Blink.Tracking
/-!
# When Blink reroutes

Blink reroutes a prefix when the running sum of its window exceeds the threshold. The sum is the
number of cells with a recent retransmission as long as the window keeps pace with the packets.
-/
namespace P4Benchmarks.Blink
open Lib Lib.SlidingCount List Registers
structure Record where
  id : Prefix
  time : BitVec 19
  cell : CellId
  deriving DecidableEq

def Metadata.records (m : Metadata) : List Record :=
  if m.isRetransmission then [⟨m.id,m.ingressTimestampMillisecond,m.flowselectorCellid⟩]
  else []
section
variable (cfg : Config)
def run (s : Registers) (ps : List Packet) : Registers := ps.foldl (fun s p => (ingress cfg s p).1) s

def records : Registers → List Packet → List Record
  | _, [] => []
  | s, p::ps => (ingress cfg s p).2.records++records (ingress cfg s p).1 ps
end

def evidence (rs : List Record) (id : Prefix) (now : BitVec 19) : Finset CellId :=
  ((rs.filter fun r => r.id=id ∧ now.toNat ≤ r.time.toNat+swNbBins*swBinsDuration.toNat).map Record.cell).toFinset
section
variable (cfg : Config) (s : Registers)
/-- Whenever a packet makes Blink leave the primary next hop of a prefix, more cells than the
threshold have recorded a retransmission recently. -/
def ReroutesOnEvidence (ps : List Packet) : Prop :=
  ∀ pre p post, ps=pre++p::post → ∀ id, (run cfg s pre).nhAvaibility1 id=0 →
    (run cfg s (pre++[p])).nhAvaibility1 id=1 → ((run cfg s pre).thresholdRegisters id).toNat <
        (evidence (records cfg s (pre++[p])) id (tag cfg (run cfg s pre) p).ingressTimestampMillisecond).card
variable (p : Packet)
def watched : Option Tcp :=
  if p.ttl=1 then none
  else p.tcp.filter fun tcp =>
    ((setMeta cfg p).map SetMeta.useBlink).getD false&&decide (0<payloadLen p tcp)

def watchedMeta (tcp : Tcp) : Metadata := { tag cfg s p with tcpPayloadLen := payloadLen p tcp }

/-- The window of the prefix keeps pace with the segment; if the cell of the segment has a
retransmission to take back, it is not at the start of the bin that is nine before the current one;
and no retransmission comes at time zero. -/
def TimelyAt (m : Metadata) (p : Packet) (tcp : Tcp) : Prop :=
  KeepsPace (s.swTime m.id).toNat m.ingressTimestampMillisecond.toNat ∧
  ((cellEvent cfg s m p tcp).takesBack → (s.flowselectorLastRet (cellAt m.id (cellId cfg p tcp))).toNat≠0 →
    (s.flowselectorLastRet (cellAt m.id (cellId cfg p tcp))).toNat+702 ≠
      binStart (s.swTime m.id).toNat m.ingressTimestampMillisecond.toNat) ∧
  (cellEvent cfg s m p tcp=.retransmission → m.ingressTimestampMillisecond.toNat≠0)

def Timely : Prop := ∀ tcp ∈ watched cfg p, TimelyAt cfg s (watchedMeta cfg s p tcp) p tcp
end

instance (start t : ℕ) : Decidable (KeepsPace start t) := inferInstanceAs (Decidable (_ ∨ _))

instance (cfg : Config) (s : Registers) (m : Metadata) (p : Packet) (tcp : Tcp) :
    Decidable (TimelyAt cfg s m p tcp) := inferInstanceAs (Decidable (_ ∧ _ ∧ _))

instance (cfg : Config) (s : Registers) (p : Packet) : Decidable (Timely cfg s p) :=
  inferInstanceAs (Decidable (∀ tcp ∈ watched cfg p, _))

structure SameCore (s s' : Registers) : Prop where
  key : s'.flowselectorKey=s.flowselectorKey
  lastRet : s'.flowselectorLastRet=s.flowselectorLastRet
  lastRetBin : s'.flowselectorLastRetBin=s.flowselectorLastRetBin
  sw : s'.sw=s.sw
  swTime : s'.swTime=s.swTime
  swIndex : s'.swIndex=s.swIndex
  swSum : s'.swSum=s.swSum
  threshold : s'.thresholdRegisters=s.thresholdRegisters
  reference : s'.timestampReference=s.timestampReference
variable {cfg : Config} {s s' s'' : Registers} {m : Metadata} {p : Packet} {tcp : Tcp}
theorem SameCore.refl (s : Registers) : SameCore s s := ⟨rfl,rfl,rfl,rfl,rfl,rfl,rfl,rfl,rfl⟩

theorem SameCore.trans (h : SameCore s s') (h' : SameCore s' s'') : SameCore s s'' where
  key := h'.key.trans h.key
  lastRet := h'.lastRet.trans h.lastRet
  lastRetBin := h'.lastRetBin.trans h.lastRetBin
  sw := h'.sw.trans h.sw
  swTime := h'.swTime.trans h.swTime
  swIndex := h'.swIndex.trans h.swIndex
  swSum := h'.swSum.trans h.swSum
  threshold := h'.threshold.trans h.threshold
  reference := h'.reference.trans h.reference

theorem SameCore.unchanged (h : SameCore s s') (junk : Unspecified) (id : Prefix) : Unchanged junk id s s' where
  bins i _ := by rw [h.sw]
  time := by rw [h.swTime]
  index := by rw [h.swIndex]
  sum := by rw [h.swSum]
  key c := by rw [h.key]
  lastRet c := by rw [h.lastRet]
  lastRetBin c := by rw [h.lastRetBin]

theorem trigger_sameCore : SameCore s (s.trigger m) := by
  unfold trigger
  split
  · exact ⟨rfl,rfl,rfl,rfl,rfl,rfl,rfl,rfl,rfl⟩
  · exact .refl s

theorem route_same : SameCore s (s.route m).1 ∧ (s.route m).1.nhAvaibility1=s.nhAvaibility1 := by
  unfold route probeFirst probeSecond countLoop
  split_ifs <;> exact ⟨⟨rfl,rfl,rfl,rfl,rfl,rfl,rfl,rfl,rfl⟩,rfl⟩

theorem judge_same : SameCore s (s.judge m) ∧ (s.judge m).nhAvaibility1=s.nhAvaibility1 := by
  unfold judge
  split <;> exact ⟨⟨rfl,rfl,rfl,rfl,rfl,rfl,rfl,rfl,rfl⟩,rfl⟩

structure SameFinding (m m' : Metadata) : Prop where
  id : m'.id=m.id
  time : m'.ingressTimestampMillisecond=m.ingressTimestampMillisecond
  cell : m'.flowselectorCellid=m.flowselectorCellid
  isRetransmission : m'.isRetransmission=m.isRetransmission

theorem SameFinding.records_eq {m' : Metadata} (h : SameFinding m m') : m'.records=m.records := by
  unfold Metadata.records
  rw [h.isRetransmission,h.id,h.time,h.cell]

theorem forward_same : SameCore s (forward s m).1 ∧
    (forward s m).1.nhAvaibility1=s.nhAvaibility1 ∧ SameFinding m (forward s m).2 := by
  unfold forward
  split
  · exact ⟨route_same.1.trans judge_same.1,judge_same.2.trans route_same.2,rfl,rfl,rfl,rfl⟩
  · exact ⟨.refl s,rfl,rfl,rfl,rfl,rfl⟩

theorem monitor_of_watched_eq_none (hnone : watched cfg p=none) (httl : ¬ (p.tcp.isSome ∧ p.ttl=1)) :
    (monitor cfg s (tag cfg s p) p).1=s ∧ SameFinding (tag cfg s p) (monitor cfg s (tag cfg s p) p).2 := by
  unfold monitor
  cases htcp : p.tcp with
  | none => exact ⟨rfl,rfl,rfl,rfl,rfl⟩
  | some tcp =>
    dsimp only
    split_ifs with hblink hlen
    · -- such a segment would be watched
      have httl' : p.ttl≠1 := fun h => httl ⟨by rw [htcp]; rfl,h⟩
      have hblink' : ((setMeta cfg p).map SetMeta.useBlink).getD false := hblink
      rw [watched,if_neg httl',htcp,Option.filter_some,hblink',decide_eq_true hlen] at hnone
      cases hnone
    · exact ⟨rfl,rfl,rfl,rfl,rfl⟩
    · exact ⟨rfl,rfl,rfl,rfl,rfl⟩

theorem ingress_of_watched_eq_none (href : s.refresh p.ingressGlobalTimestamp=s) (hnone : watched cfg p=none) :
    SameCore s (ingress cfg s p).1 ∧ (ingress cfg s p).1.nhAvaibility1=s.nhAvaibility1 ∧
      (ingress cfg s p).2.records=[] := by
  unfold ingress
  dsimp only
  rw [href]
  split_ifs with httl
  · exact ⟨.refl s,rfl,rfl⟩
  · obtain ⟨hs,hm⟩ := monitor_of_watched_eq_none (s := s) hnone httl
    obtain ⟨hcore,hnh,hfinding⟩ := forward_same (s := (monitor cfg s (tag cfg s p) p).1)
      (m := (monitor cfg s (tag cfg s p) p).2)
    rw [hfinding.records_eq,hm.records_eq]
    rw [hs] at hcore hnh ⊢
    exact ⟨hcore,hnh,rfl⟩

theorem ingress_of_watched (href : s.refresh p.ingressGlobalTimestamp=s) (hwatched : watched cfg p=some tcp)
    {r : Registers × Metadata} (hr : flowselector cfg s (watchedMeta cfg s p tcp) p tcp=r) :
    SameCore r.1 (ingress cfg s p).1 ∧ (ingress cfg s p).1.nhAvaibility1=(r.1.trigger r.2).nhAvaibility1 ∧
    SameFinding r.2 (ingress cfg s p).2 := by
  unfold watched at hwatched
  split_ifs at hwatched with httl
  obtain ⟨htcp,hcond⟩ := Option.filter_eq_some_iff.mp hwatched
  rw [Bool.and_eq_true,decide_eq_true_eq] at hcond
  have hmonitor : monitor cfg s (tag cfg s p) p=(r.1.trigger r.2,r.2) := by
    unfold monitor
    rw [htcp]
    dsimp only
    rw [if_pos (show (tag cfg s p).useBlink from hcond.1),if_pos hcond.2,← hr]
    rfl
  unfold ingress
  rw [href,if_neg fun h => httl h.2,hmonitor]
  obtain ⟨hcore,hnh,hfinding⟩ := forward_same (s := r.1.trigger r.2) (m := r.2)
  exact ⟨trigger_sameCore.trans hcore,hnh,hfinding⟩

structure SameControl (s s' : Registers) : Prop where
  threshold : s'.thresholdRegisters=s.thresholdRegisters
  reference : s'.timestampReference=s.timestampReference
  nhAvaibility1 : s'.nhAvaibility1=s.nhAvaibility1

theorem meet_sameControl {c : CellId} {key nep : BitVec 32} {event : CellEvent} :
    SameControl s (s.meet cfg m c key nep event) := by
  have hback : SameControl s (s.takeBack cfg m.id c m.ingressTimestampMillisecond) := by
    rw [takeBack_eq]
    exact ⟨rfl,rfl,rfl⟩
  have hprogress : SameControl s (s.progress m.id c m.ingressTimestampMillisecond) := by
    unfold Registers.progress
    split <;> exact ⟨rfl,rfl,rfl⟩
  cases event with
  | finish | retransmission | evict => exact ⟨hback.threshold,hback.reference,hback.nhAvaibility1⟩
  | progress => exact ⟨hprogress.threshold,hprogress.reference,hprogress.nhAvaibility1⟩
  | enter | ignore => exact ⟨rfl,rfl,rfl⟩

theorem flowselector_sameControl : SameControl s (flowselector cfg s m p tcp).1 := by
  have hslide : SameControl s (s.slidingWindow cfg m.id m.ingressTimestampMillisecond) := by
    rw [slidingWindow_eq]
    exact ⟨rfl,rfl,rfl⟩
  have hmeet : SameControl (s.slidingWindow cfg m.id m.ingressTimestampMillisecond)
      (flowselector cfg s m p tcp).1 := meet_sameControl
  exact ⟨hmeet.threshold.trans hslide.threshold,hmeet.reference.trans hslide.reference,
    hmeet.nhAvaibility1.trans hslide.nhAvaibility1⟩

theorem trigger_of_nhAvaibility1 {id : Prefix} (hbefore : s.nhAvaibility1 id=0)
    (hafter : (s.trigger m).nhAvaibility1 id=1) : id=m.id ∧ s.thresholdRegisters id < s.swSum id := by
  unfold trigger at hafter
  split_ifs at hafter with hsum
  · change s.nhAvaibility1.write m.id 1 id=1 at hafter
    rw [Register.write_apply] at hafter
    split_ifs at hafter with hid
    · have hid' : id=m.id := Fin.ext hid
      exact ⟨hid',hid' ▸ hsum.1⟩
    · rw [hbefore] at hafter
      exact absurd hafter (by decide)
  · rw [hbefore] at hafter
    exact absurd hafter (by decide)

/-- After packets up to time `now` that recorded the retransmissions `rs`, the windows count the
cells, and the times in the registers are those of past packets. -/
structure Inv (junk : Unspecified) (rs : List Record) (now : ℕ) (s : Registers) : Prop where
  reference : s.timestampReference=0
  tracked : ∀ id, ∃ age, Tracked junk s id age
  time : ∀ id, (s.swTime id).toNat≤now
  lastRet : ∀ id c, (s.flowselectorLastRet (cellAt id c)).toNat≤now
  recorded : ∀ id c, s.flowselectorLastRet (cellAt id c)≠0 → ⟨id,s.flowselectorLastRet (cellAt id c),c⟩ ∈ rs
variable {rs rs' : List Record} {now now' : ℕ}
theorem Inv.congr {junk : Unspecified} (h : Inv junk rs now s) (hsame : SameCore s s')
    (hrs : rs ⊆ rs') (hnow : now≤now') : Inv junk rs' now' s' where
  reference := hsame.reference.trans h.reference
  tracked id := by
    obtain ⟨age,htracked⟩ := h.tracked id
    exact ⟨age,htracked.congr (hsame.unchanged junk id)⟩
  time id := by
    rw [hsame.swTime]
    exact (h.time id).trans hnow
  lastRet id c := by
    rw [hsame.lastRet]
    exact (h.lastRet id c).trans hnow
  recorded id c hret := by
    rw [hsame.lastRet] at hret ⊢
    exact hrs (h.recorded id c hret)

theorem inv_init (junk : Unspecified) (thresholds : Register 100 6)
    (nextHopsPort : Register 300 32) : Inv junk [] 0 (.init thresholds nextHopsPort) where
  reference := rfl
  tracked id := by
    refine ⟨fun _ => none,⟨counts_clear (by decide) fun i hi => ?_,fun c => .inl rfl⟩, fun c _ => rfl⟩
    unfold binsOf Register.read
    rw [dif_pos (by omega)]
    rfl
  time _ := le_rfl
  lastRet _ _ := le_rfl
  recorded _ _ h := absurd rfl h

theorem Inv.poised (h : Inv cfg.junk rs now s) (hnow : now ≤ m.ingressTimestampMillisecond.toNat)
    (htimely : TimelyAt cfg s m p tcp) :
    (∃ age, Tracked cfg.junk (s.slidingWindow cfg m.id m.ingressTimestampMillisecond) m.id age) ∧
    Poised (s.slidingWindow cfg m.id m.ingressTimestampMillisecond) m (cellId cfg p tcp) (cellEvent cfg s m p tcp) := by
  obtain ⟨hpace,hexact,hfresh⟩ := htimely
  have hle : (s.swTime m.id).toNat ≤ m.ingressTimestampMillisecond.toNat := (h.time m.id).trans hnow
  obtain ⟨age,htracked⟩ := h.tracked m.id
  obtain ⟨htracked',hstart⟩ := htracked.slidingWindow hle hpace
  refine ⟨htracked',?_⟩
  constructor
  · rw [hstart]
    exact binStart_le hle
  · rw [hstart]
    exact le_binStart hle
  · rw [slidingWindow_eq]
    exact (h.lastRet m.id _).trans hnow
  · rw [slidingWindow_eq,hstart]
    exact hexact
  · exact hfresh
  · rw [slidingWindow_eq]
    exact key_of_retransmission
  · rw [slidingWindow_eq]
    exact key_of_enter

theorem flowselector_fst : (flowselector cfg s m p tcp).1 =
    (s.slidingWindow cfg m.id m.ingressTimestampMillisecond).meet cfg m (cellId cfg p tcp)
      (newflowKey cfg p tcp) (m.nep tcp) (cellEvent cfg s m p tcp) := by
  unfold flowselector
  dsimp only
  rw [cellEvent_slidingWindow]

theorem mem_flowselector_records (h : cellEvent cfg s m p tcp=.retransmission) :
    ⟨m.id,m.ingressTimestampMillisecond,cellId cfg p tcp⟩ ∈ (flowselector cfg s m p tcp).2.records := by
  have hret : (flowselector cfg s m p tcp).2.isRetransmission := by
    change decide (cellEvent cfg (s.slidingWindow cfg _ _) m p tcp=.retransmission)
    rw [cellEvent_slidingWindow,h]
    rfl
  unfold Metadata.records
  rw [if_pos hret]
  exact mem_singleton_self _

theorem inv_flowselector (h : Inv cfg.junk rs now s)
    (hnow : now ≤ m.ingressTimestampMillisecond.toNat) (htimely : TimelyAt cfg s m p tcp) :
    Inv cfg.junk (rs++(flowselector cfg s m p tcp).2.records)
      m.ingressTimestampMillisecond.toNat (flowselector cfg s m p tcp).1 := by
  obtain ⟨⟨age,htracked⟩,hpoised⟩ := h.poised hnow htimely
  have hlastRet (id : Prefix) (c : CellId) : (flowselector cfg s m p tcp).1.flowselectorLastRet (cellAt id c) =
          s.flowselectorLastRet (cellAt id c) ∨
        (flowselector cfg s m p tcp).1.flowselectorLastRet (cellAt id c)=0 ∨
        cellEvent cfg s m p tcp=.retransmission ∧ id=m.id ∧ c=cellId cfg p tcp ∧
          (flowselector cfg s m p tcp).1.flowselectorLastRet (cellAt id c) = m.ingressTimestampMillisecond := by
    have hslide : (s.slidingWindow cfg m.id m.ingressTimestampMillisecond).flowselectorLastRet =
        s.flowselectorLastRet := congrArg (·.flowselectorLastRet) slidingWindow_eq
    rw [flowselector_fst,← hslide]
    exact meet_lastRet id c
  refine ⟨flowselector_sameControl.reference.trans h.reference,fun id => ?_,fun id => ?_,
    fun id c => ?_,fun id c hret => ?_⟩
  · rw [flowselector_fst]
    by_cases hid : id=m.id
    · rw [hid]
      exact htracked.meet hpoised
    · obtain ⟨age',htracked'⟩ := h.tracked id
      exact ⟨age',htracked'.congr ((slidingWindow_unchanged hid).trans (htracked.meet_unchanged hpoised hid))⟩
  · rw [flowselector_fst,meet_swTime]
    by_cases hid : id=m.id
    · rw [hid]
      exact hpoised.start
    · have hsame : Unchanged cfg.junk id s
          (s.slidingWindow cfg m.id m.ingressTimestampMillisecond) := slidingWindow_unchanged hid
      rw [hsame.time]
      exact (h.time id).trans hnow
  · obtain heq | heq | ⟨-,-,-,heq⟩ := hlastRet id c
    · rw [heq]
      exact (h.lastRet id c).trans hnow
    · rw [heq]
      exact Nat.zero_le _
    · rw [heq]
  · rw [mem_append]
    obtain heq | heq | ⟨hevent,hid,hc,heq⟩ := hlastRet id c
    · rw [heq] at hret ⊢
      exact .inl (h.recorded id c hret)
    · exact absurd heq hret
    · rw [heq,hid,hc]
      exact .inr (mem_flowselector_records hevent)

/-- In a state with the invariant, the sum of a window is at most the number of cells that have
recorded a retransmission recently. -/
theorem Inv.sum_le_evidence {junk : Unspecified} (h : Inv junk rs now s) {id : Prefix} {t : BitVec 19}
    (ht : t.toNat≤(s.swTime id).toNat+78) : (s.swSum id).toNat≤(evidence rs id t).card := by
  obtain ⟨age,htracked⟩ := h.tracked id
  apply htracked.window.counts.toNat_sum_le.trans
  apply Finset.card_le_card
  intro c hc
  have hlive : age c≠none := (Finset.mem_filter.mp hc).2
  obtain ⟨a,hage⟩ := Option.ne_none_iff_exists'.mp hlive
  have ha := htracked.window.counts.age_lt c a hage
  have hcell := htracked.window.cell c
  rw [hage] at hcell
  obtain ⟨hpos,hlo,-,-⟩ := hcell
  change (s.swTime id).toNat≤(s.flowselectorLastRet (cellAt id c)).toNat+78*a at hlo
  have hne : s.flowselectorLastRet (cellAt id c)≠0 := by
    intro hzero
    rw [hzero] at hpos
    exact absurd hpos (by decide)
  unfold evidence
  rw [mem_toFinset,mem_map]
  refine ⟨_,mem_filter.mpr ⟨h.recorded id c hne,?_⟩,rfl⟩
  rw [decide_eq_true_eq,toNat_swBinsDuration]
  refine ⟨rfl,?_⟩
  change t.toNat≤(s.flowselectorLastRet (cellAt id c)).toNat+10*78
  omega

theorem tag_time (href : s.timestampReference=0) (hmax : p.ingressGlobalTimestamp ≤ maxFlowsSelectionTime) :
    (tag cfg s p).ingressTimestampMillisecond.toNat=p.ingressGlobalTimestamp.toNat/1024 := by
  change (((p.ingressGlobalTimestamp-s.timestampReference)>>>10).setWidth 19).toNat=_
  have hlt : p.ingressGlobalTimestamp.toNat≤500000000 := hmax
  rw [show s.timestampReference=0#48 from href,BitVec.sub_zero,BitVec.toNat_setWidth,
    BitVec.toNat_ushiftRight,Nat.shiftRight_eq_div_pow,Nat.mod_eq_of_lt (by omega)]

theorem refresh_eq_self (href : s.timestampReference=0) (hmax : p.ingressGlobalTimestamp ≤ maxFlowsSelectionTime) :
    s.refresh p.ingressGlobalTimestamp=s := by
  unfold refresh
  rw [show s.timestampReference=0#48 from href,BitVec.sub_zero,if_neg (BitVec.not_lt.mpr hmax)]

theorem inv_ingress (h : Inv cfg.junk rs now s) (hmax : p.ingressGlobalTimestamp ≤ maxFlowsSelectionTime)
    (hnow : now≤p.ingressGlobalTimestamp.toNat/1024) (htimely : Timely cfg s p) :
    Inv cfg.junk (rs++(ingress cfg s p).2.records) (p.ingressGlobalTimestamp.toNat/1024) (ingress cfg s p).1 ∧
      ∀ id, s.nhAvaibility1 id=0 → (ingress cfg s p).1.nhAvaibility1 id=1 →
        (s.thresholdRegisters id).toNat<(evidence (rs++(ingress cfg s p).2.records) id
          (tag cfg s p).ingressTimestampMillisecond).card := by
  have href := refresh_eq_self h.reference hmax
  have htime : (tag cfg s p).ingressTimestampMillisecond.toNat=_ := tag_time h.reference hmax
  cases hwatched : watched cfg p with
  | none =>
    obtain ⟨hcore,hnh,hrecords⟩ := ingress_of_watched_eq_none href hwatched
    rw [hrecords,append_nil]
    refine ⟨h.congr hcore (List.Subset.refl rs) hnow,fun id hbefore hafter => ?_⟩
    rw [hnh,hbefore] at hafter
    exact absurd hafter (by decide)
  | some tcp =>
    obtain ⟨hcore,hnh,hfinding⟩ := ingress_of_watched href hwatched rfl
    have htimelyAt := htimely tcp hwatched
    have hnow' : now≤(watchedMeta cfg s p tcp).ingressTimestampMillisecond.toNat := by
      change now≤(tag cfg s p).ingressTimestampMillisecond.toNat
      omega
    have hinv := inv_flowselector h hnow' htimelyAt
    rw [hfinding.records_eq]
    refine ⟨hinv.congr hcore (List.Subset.refl _) (Nat.le_of_eq htime),fun id hbefore hafter => ?_⟩
    rw [hnh] at hafter
    rw [← flowselector_sameControl.nhAvaibility1] at hbefore
    obtain ⟨hid,hsum⟩ := trigger_of_nhAvaibility1 hbefore hafter
    rw [flowselector_sameControl.threshold,BitVec.lt_def] at hsum
    apply hsum.trans_le
    apply hinv.sum_le_evidence
    rw [hid,flowselector_fst,meet_swTime]
    exact (h.poised hnow' htimelyAt).2.now

theorem records_concat (cfg : Config) (s : Registers) (ps : List Packet) (p : Packet) :
    records cfg s (ps++[p])=records cfg s ps++(ingress cfg (run cfg s ps) p).2.records := by
  induction ps generalizing s with
  | nil => exact append_nil _
  | cons q ps ih =>
    rw [cons_append,records,records,ih,append_assoc]
    rfl

theorem inv_run {pre post : List Packet} (h : Inv cfg.junk rs now s)
    (hmax : ∀ p ∈ pre++post, p.ingressGlobalTimestamp ≤ maxFlowsSelectionTime)
    (hsorted : (pre++post).Pairwise fun p q =>
      p.ingressGlobalTimestamp≤q.ingressGlobalTimestamp)
    (hnow : ∀ p ∈ pre++post, now≤p.ingressGlobalTimestamp.toNat/1024)
    (htimely : EachStep (fun s p => some (ingress cfg s p).1) (Timely cfg) s (pre++post)) :
    ∃ now', Inv cfg.junk (rs++records cfg s pre) now' (run cfg s pre) ∧
      (∀ p ∈ post, now'≤p.ingressGlobalTimestamp.toNat/1024) ∧
      EachStep (fun s p => some (ingress cfg s p).1) (Timely cfg) (run cfg s pre) post := by
  induction pre generalizing s rs now with
  | nil =>
    rw [records,append_nil]
    exact ⟨now,h,hnow,htimely⟩
  | cons p pre ih =>
    obtain ⟨hle,hsorted⟩ := pairwise_cons.mp hsorted
    obtain ⟨hmaxp,hmax⟩ := forall_mem_cons.mp hmax
    obtain ⟨hinv,-⟩ := inv_ingress h hmaxp (forall_mem_cons.mp hnow).1 htimely.head
    rw [records,← append_assoc]
    exact ih hinv hmax hsorted (fun q hq => Nat.div_le_div_right (hle q hq)) (htimely.tail rfl)

/-- With non-decreasing timestamps below the limit at which the reference timestamp moves, Blink
reroutes on evidence as long as the packets come in time. -/
theorem reroutesOnEvidence_of_timely (cfg : Config) (thresholds : Register 100 6)
    (nextHopsPort : Register 300 32) (ps : List Packet)
    (hmax : ∀ p ∈ ps, p.ingressGlobalTimestamp ≤ maxFlowsSelectionTime)
    (hsorted : ps.Pairwise fun p q => p.ingressGlobalTimestamp≤q.ingressGlobalTimestamp)
    (htimely : EachStep (fun s p => some (ingress cfg s p).1) (Timely cfg) (.init thresholds nextHopsPort) ps) :
    ReroutesOnEvidence cfg (.init thresholds nextHopsPort) ps := by
  rintro pre p post rfl id hbefore hafter
  obtain ⟨now,hinv,hnow,htimely'⟩ := inv_run (inv_init cfg.junk thresholds nextHopsPort) hmax
    hsorted (fun _ _ => Nat.zero_le _) htimely
  have hrun : run cfg (.init thresholds nextHopsPort) (pre++[p]) =
      (ingress cfg (run cfg (.init thresholds nextHopsPort) pre) p).1 := foldl_append
  rw [hrun] at hafter
  rw [records_concat]
  exact (inv_ingress hinv (hmax p (by simp)) (hnow p mem_cons_self) htimely'.head).2 id hbefore hafter

def oneCell : Config where
  bgpTag _ _ := 0
  metaFwtable _ _ := some ⟨0,true,1⟩
  crc32 _ _ _ _ _ := 0
  junk _ := 0

def segment (time : BitVec 48) (seqNo : BitVec 32) (fin : Bool) : Packet :=
  ⟨1,time*1024,0,5,140,64,0x0A000101,0x0A000201,some ⟨4000,80,seqNo,5,false,fin⟩⟩

/-- With a threshold of zero, one retransmission in time reroutes, and it is all the evidence. -/
theorem retransmission_reroutesOnEvidence :
    (run oneCell (.init (.filled 0) (.filled 0)) [segment 10 0 false,segment 20 0 false]).nhAvaibility1 0=1 ∧
    ReroutesOnEvidence oneCell (.init (.filled 0) (.filled 0)) [segment 10 0 false,segment 20 0 false] :=
  ⟨by decide +kernel,reroutesOnEvidence_of_timely oneCell (.filled 0) (.filled 0) _
    (by decide +kernel) (by decide +kernel) (by decide +kernel)⟩

def pausingFlow : List Packet :=
  [segment 1 0 false,segment 780 0 false,segment 780 100 false,segment 1170 200 true]

/-- After the pause, the window lags behind by five bins. The retransmission counts in a bin that
is emptied too soon, and the FIN takes it back once more: the sum drops from 0 to 63. -/
theorem pausingFlow_reroutes_without_evidence : (∀ p ∈ pausingFlow, p.ingressGlobalTimestamp ≤ maxFlowsSelectionTime) ∧
    pausingFlow.Pairwise (fun p q => p.ingressGlobalTimestamp≤q.ingressGlobalTimestamp) ∧
    ¬ ReroutesOnEvidence oneCell (.init (.filled 31) (.filled 0)) pausingFlow := by
  refine ⟨by decide +kernel,by decide +kernel,fun h => ?_⟩
  have hevidence := h [segment 1 0 false,segment 780 0 false,segment 780 100 false]
    (segment 1170 200 true) [] rfl 0 (by decide +kernel) (by decide +kernel)
  exact absurd hevidence (by decide +kernel)
end P4Benchmarks.Blink
