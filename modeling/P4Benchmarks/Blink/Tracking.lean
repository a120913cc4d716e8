import P4Benchmarks.Blink.Window
/-! # What the flow selector keeps of the window -/
namespace P4Benchmarks.Blink
open Lib Lib.SlidingCount BitVec Function
variable {junk : Unspecified} {id id' : Prefix} {age : CellId → Option ℕ} {s : Registers}
  {c : CellId} {t : BitVec 19} {cfg : Config}

theorem Registers.slidingWindow_eq : s.slidingWindow cfg id t =
    { s with
      sw := (s.slidingWindow cfg id t).sw
      swTime := (s.slidingWindow cfg id t).swTime
      swIndex := (s.slidingWindow cfg id t).swIndex
      swSum := (s.slidingWindow cfg id t).swSum } := by
  unfold slidingWindow catchUp
  split_ifs <;> rfl

theorem Registers.takeBack_eq : s.takeBack cfg id c t =
    { s with sw := (s.takeBack cfg id c t).sw, swSum := (s.takeBack cfg id c t).swSum } := by
  unfold takeBack
  split_ifs <;> rfl

theorem reset_unchanged (hid : id'≠id) : Unchanged junk id' s (s.reset id t) where
  bins _ hi := binsOf_reset_of_ne junk s.sw hid le_rfl hi
  time := write_at_of_ne _ hid _
  index := write_at_of_ne _ hid _
  sum := write_at_of_ne _ hid _
  key _ := rfl
  lastRet _ := rfl
  lastRetBin _ := rfl

theorem catchUp_unchanged (hid : id'≠id) : Unchanged cfg.junk id' s (s.catchUp cfg id t) := by
  unfold Registers.catchUp
  split_ifs
  · exact ⟨fun _ hi => binsOf_shift_of_ne hid _ _ hi,write_at_of_ne _ hid _,
      write_at_of_ne _ hid _,write_at_of_ne _ hid _,fun _ => rfl,fun _ => rfl,
      fun _ => rfl⟩
  · exact .refl _ _ _

theorem slidingWindow_unchanged (hid : id'≠id) : Unchanged cfg.junk id' s (s.slidingWindow cfg id t) := by
  unfold Registers.slidingWindow
  split_ifs
  · exact (reset_unchanged hid).trans (catchUp_unchanged hid)
  · exact catchUp_unchanged hid

theorem Tracked.reset (h : Tracked junk s id age) (hgap : (s.swTime id).toNat+780<t.toNat) :
    Tracked junk (s.reset id t) id (fun _ => none) := by
  have hsliding : (s.reset id t).sliding id=⟨(s.reset id t).sw,t,0,0⟩ :=
    Registers.sliding_store s id ⟨(s.reset id t).sw,t,0,0⟩
  refine ⟨⟨?_,fun c => ?_⟩,h.empty⟩
  · rw [hsliding]
    refine counts_clear (by decide) fun i hi => ?_
    exact (binsOf_reset junk s.sw id 10 i hi).trans (if_pos hi)
  · rw [hsliding]
    have hret := (h.window.cell c).ret_le
    change (s.flowselectorLastRet (cellAt id c)).toNat≤(s.swTime id).toNat+78 at hret
    change _ ∨ (s.flowselectorLastRet (cellAt id c)).toNat+702≤t.toNat
    exact .inr (by omega)

theorem toNat_sub_swTime (h : (s.swTime id).toNat≤t.toNat) : (t-s.swTime id).toNat=t.toNat-(s.swTime id).toNat := by
  bv_omega

theorem Tracked.catchUp (h : Tracked cfg.junk s id age) (hle : (s.swTime id).toNat≤t.toNat)
    (hpace : t.toNat<(s.swTime id).toNat+468) :
    (∃ age', Tracked cfg.junk (s.catchUp cfg id t) id age') ∧
      ((s.catchUp cfg id t).swTime id).toNat=binStart (s.swTime id).toNat t.toNat := by
  have hgap := toNat_sub_swTime hle
  unfold Registers.catchUp binStart
  by_cases hlate : swBinsDuration<t-s.swTime id
  · have hlate' : (s.swTime id).toNat+78<t.toNat := by
      rw [lt_def,toNat_swBinsDuration,hgap] at hlate
      omega
    have hshift : shiftOf (t-s.swTime id)=(t.toNat-(s.swTime id).toNat)/78 := by
      rw [shiftOf_eq,hgap]
      omega
    rw [if_pos hlate,if_neg (by omega),if_pos hlate',hshift]
    obtain ⟨⟨age',hok⟩,htime⟩ := h.window.shift ((t.toNat-(s.swTime id).toNat)/78)
      (by change (s.swTime id).toNat+_<_; omega)
    refine ⟨⟨age',?_,h.empty⟩,?_⟩
    · rw [Registers.sliding_store]
      exact hok
    · change ((s.swTime.write id _) id).toNat=_
      rw [write_at]
      exact htime
  · have hlate' : ¬ (s.swTime id).toNat+78<t.toNat := by
      rw [lt_def,toNat_swBinsDuration,hgap] at hlate
      omega
    rw [if_neg hlate,if_neg (by omega),if_neg hlate']
    exact ⟨⟨age,h⟩,rfl⟩

theorem Tracked.slidingWindow (h : Tracked cfg.junk s id age)
    (hle : (s.swTime id).toNat≤t.toNat) (hpace : KeepsPace (s.swTime id).toNat t.toNat) :
    (∃ age', Tracked cfg.junk (s.slidingWindow cfg id t) id age') ∧
      ((s.slidingWindow cfg id t).swTime id).toNat=binStart (s.swTime id).toNat t.toNat := by
  have hgap := toNat_sub_swTime hle
  have hten : (swBinsDuration*10).toNat=780 := by decide
  unfold Registers.slidingWindow
  by_cases hreset : swBinsDuration*10<t-s.swTime id
  · have hlate : (s.swTime id).toNat+780<t.toNat := by
      rw [lt_def,hten,hgap] at hreset
      omega
    have htime : (s.reset id t).swTime id=t := write_at _ _ _
    rw [if_pos hreset]
    obtain ⟨htracked,hstart⟩ := (h.reset hlate).catchUp (t := t) (by rw [htime]) (by rw [htime]; omega)
    refine ⟨htracked,hstart.trans ?_⟩
    rw [htime]
    unfold binStart
    rw [if_neg (by omega),if_neg (by omega),if_pos hlate]
  · rw [if_neg hreset]
    apply h.catchUp hle
    rw [lt_def,hten,hgap] at hreset
    exact hpace.resolve_right (by omega)

/-- The code knows which retransmissions are in the window, but for one at the very start of the
oldest bin. -/
theorem inWindow_iff (hstart : (s.swTime id).toNat≤t.toNat) (hnow : t.toNat≤(s.swTime id).toNat+78)
    (hret : (s.flowselectorLastRet (cellAt id c)).toNat≤t.toNat) :
    s.InWindow id c t ↔ (s.swTime id).toNat<(s.flowselectorLastRet (cellAt id c)).toNat+702 ∧
        0<(s.flowselectorLastRet (cellAt id c)).toNat := by
  have hnine : ((10-1)*swBinsDuration).toNat=702 := by decide
  unfold Registers.InWindow
  generalize (10-1)*swBinsDuration=nine at hnine
  generalize s.flowselectorLastRet (cellAt id c)=r at hret
  generalize s.swTime id=start at hstart hnow
  have hsub : (t-r).toNat=t.toNat-r.toNat := by bv_omega
  have hsum : (nine+(t-start)).toNat=702+(t.toNat-start.toNat) := by bv_omega
  rw [lt_def,lt_def,toNat_setWidth,toNat_setWidth,hsub,hsum,
    Nat.mod_eq_of_lt (by have := t.isLt; omega),Nat.mod_eq_of_lt (by omega)]
  change _ ∧ 0 < r.toNat ↔ _
  omega

structure Vacant (junk : Unspecified) (s : Registers) (id : Prefix) (c : CellId) (age : CellId → Option ℕ) : Prop where
  counts : Counts 10 (binsOf junk s.sw id) (s.swIndex id).toNat (s.swSum id) age
  free : age c=none
  cell : ∀ c', c'≠c → CellOk (s.swTime id).toNat (s.swIndex id).toNat
    (s.flowselectorLastRet (cellAt id c')).toNat (s.flowselectorLastRetBin (cellAt id c')).toNat
    (age c')
  empty : ∀ c', c'≠c → s.flowselectorKey (cellAt id c')=0 → s.flowselectorLastRet (cellAt id c')=0

theorem Tracked.vacant (h : Tracked junk s id age) (hc : age c=none) : Vacant junk s id c age :=
  ⟨h.window.counts,hc,fun c' _ => h.window.cell c',fun c' _ => h.empty c'⟩

theorem Tracked.age_eq_none (h : Tracked junk s id age) (hkey : s.flowselectorKey (cellAt id c)=0) : age c=none := by
  have hcell := h.window.cell c
  cases hage : age c with
  | none => rfl
  | some a =>
    rw [hage] at hcell
    have hpos : 0<(s.flowselectorLastRet (cellAt id c)).toNat := hcell.1
    rw [h.empty c hkey] at hpos
    exact absurd hpos (by decide)

theorem Tracked.takeBack (h : Tracked cfg.junk s id age) (hstart : (s.swTime id).toNat≤t.toNat)
    (hnow : t.toNat≤(s.swTime id).toNat+78)
    (hret : (s.flowselectorLastRet (cellAt id c)).toNat≤t.toNat)
    (hexact : (s.flowselectorLastRet (cellAt id c)).toNat≠0 →
      (s.flowselectorLastRet (cellAt id c)).toNat+702≠(s.swTime id).toNat) :
    Vacant cfg.junk (s.takeBack cfg id c t) id c (update age c none) := by
  have hin := inWindow_iff hstart hnow hret
  have hcell := h.window.cell c
  unfold Registers.takeBack
  cases hage : age c with
  | none =>
    rw [hage] at hcell
    have hout : ¬ s.InWindow id c t := by
      rw [hin]
      change _=0 ∨ _≤(s.swTime id).toNat at hcell
      omega
    rw [if_neg hout,← hage,update_eq_self]
    exact h.vacant hage
  | some a =>
    have ha := h.window.counts.age_lt c a hage
    rw [hage] at hcell
    obtain ⟨hpos,hlo,hhi,hbin⟩ := hcell
    change (s.swTime id).toNat≤_ at hlo
    rw [if_pos (hin.mpr (by omega))]
    have hne (c' : CellId) (hc' : c'≠c) : update age c none c'=age c' := update_of_ne hc' none age
    refine ⟨?_,update_self c none age,fun c' hc' => ?_,fun c' hc' => h.empty c'⟩
    · have hremove := h.window.counts.remove hage
      rw [← hbin] at hremove
      change Counts 10 _ _ (s.swSum.write id (s.swSum id-1) id) _
      rw [write_at]
      exact hremove.congr fun i hi => binsOf_write cfg.junk s.sw id _ _ hi
    · rw [hne c' hc']
      exact h.window.cell c'

theorem Vacant.occupy (h : Vacant junk s id c age) (key nep : BitVec 32) (ts : BitVec 9) :
    Tracked junk (s.occupy id c key nep ts) id age := by
  refine ⟨⟨h.counts,fun c' => ?_⟩,fun c' hkey => ?_⟩
  · change CellOk (s.swTime id).toNat (s.swIndex id).toNat
      (s.flowselectorLastRet.write (cellAt id c) 0 (cellAt id c')).toNat _ _
    rw [write_cellAt]
    split_ifs with hc'
    · rw [hc',h.free]
      exact .inl rfl
    · exact h.cell c' hc'
  · change s.flowselectorLastRet.write (cellAt id c) 0 (cellAt id c')=0
    change s.flowselectorKey.write (cellAt id c) key (cellAt id c')=0 at hkey
    rw [write_cellAt] at hkey ⊢
    split_ifs at hkey ⊢ with hc'
    · rfl
    · exact h.empty c' hc' hkey

theorem Vacant.record (h : Vacant cfg.junk s id c age) (hstart : (s.swTime id).toNat≤t.toNat)
    (hnow : t.toNat≤(s.swTime id).toNat+78) (hpos : 0<t.toNat) (hkey : s.flowselectorKey (cellAt id c)≠0) :
    Tracked cfg.junk (s.record cfg id c t) id (update age c (some 0)) := by
  refine ⟨⟨?_,fun c' => ?_⟩,fun c' hkey' => ?_⟩
  · change Counts 10 _ _ (s.swSum.write id (s.swSum id+1) id) _
    rw [write_at]
    exact (h.counts.record h.free).congr fun i hi => binsOf_write cfg.junk s.sw id _ _ hi
  · change CellOk (s.swTime id).toNat (s.swIndex id).toNat
      (s.flowselectorLastRet.write (cellAt id c) t (cellAt id c')).toNat
      (s.flowselectorLastRetBin.write (cellAt id c) (s.swIndex id) (cellAt id c')).toNat _
    rw [write_cellAt,write_cellAt,update_apply]
    split_ifs with hc'
    · exact ⟨hpos,by omega,by omega,(slot_zero h.counts.index_lt).symm⟩
    · exact h.cell c' hc'
  · change s.flowselectorLastRet.write (cellAt id c) t (cellAt id c')=0
    have hne : c'≠c := by
      rintro rfl
      exact hkey hkey'
    rw [write_cellAt,if_neg hne]
    exact h.empty c' hne hkey'

theorem takeBack_unchanged (hid : id'≠id)
    (hbin : s.InWindow id c t → (s.flowselectorLastRetBin (cellAt id c)).toNat<10) :
    Unchanged cfg.junk id' s (s.takeBack cfg id c t) := by
  unfold Registers.takeBack
  split_ifs with hin
  · exact ⟨fun _ hi => binsOf_write_of_ne cfg.junk s.sw hid (hbin hin) _ hi,rfl,rfl,
      write_at_of_ne _ hid _,fun _ => rfl,fun _ => rfl,fun _ => rfl⟩
  · exact .refl _ _ _

theorem record_unchanged (hid : id'≠id) (hindex : (s.swIndex id).toNat<10) :
    Unchanged cfg.junk id' s (s.record cfg id c t) where
  bins _ hi := binsOf_write_of_ne cfg.junk s.sw hid hindex _ hi
  time := rfl
  index := rfl
  sum := write_at_of_ne _ hid _
  key _ := rfl
  lastRet _ := write_cellAt_of_ne _ hid _ _ _
  lastRetBin _ := write_cellAt_of_ne _ hid _ _ _

theorem occupy_unchanged (hid : id'≠id) (key nep : BitVec 32) (ts : BitVec 9) :
    Unchanged junk id' s (s.occupy id c key nep ts) where
  bins _ _ := rfl
  time := rfl
  index := rfl
  sum := rfl
  key _ := write_cellAt_of_ne _ hid _ _ _
  lastRet _ := write_cellAt_of_ne _ hid _ _ _
  lastRetBin _ := rfl

theorem touch_unchanged (nep : BitVec 32) (ts : BitVec 9) : Unchanged junk id' s (s.touch id c nep ts) :=
  ⟨fun _ _ => rfl,rfl,rfl,rfl,fun _ => rfl,fun _ => rfl,fun _ => rfl⟩

theorem progress_unchanged : Unchanged junk id' s (s.progress id c t) := by
  unfold Registers.progress
  split
  · exact ⟨fun _ _ => rfl,rfl,rfl,rfl,fun _ => rfl,fun _ => rfl,fun _ => rfl⟩
  · exact .refl _ _ _

def CellEvent.takesBack : CellEvent → Bool
  | .finish | .retransmission | .evict => true
  | _ => false
variable {m : Metadata} {p : Packet} {tcp : Tcp}
theorem cellEvent_slidingWindow : cellEvent cfg (s.slidingWindow cfg id t) m p tcp=cellEvent cfg s m p tcp := by
  rw [Registers.slidingWindow_eq]
  rfl

theorem newflowKey_ne_zero : newflowKey cfg p tcp≠0 := by
  have hlt := Nat.mod_lt (cfg.crc32 p.srcAddr p.dstAddr tcp.srcPort tcp.dstPort hash1Offset).toNat
    (show 0<2^32-1 by decide)
  unfold newflowKey
  generalize (cfg.crc32 p.srcAddr p.dstAddr tcp.srcPort tcp.dstPort hash1Offset).toNat%(2^32-1)=n at hlt
  intro h
  have hnat := congrArg BitVec.toNat h
  change (n%2^32+1)%2^32=0 at hnat
  omega

theorem key_of_retransmission (h : cellEvent cfg s m p tcp=.retransmission) :
    s.flowselectorKey (cellAt m.id (cellId cfg p tcp))≠0 := by
  unfold cellEvent at h
  dsimp only at h
  split_ifs at h with hhit
  rw [hhit.1]
  exact newflowKey_ne_zero

theorem key_of_enter (h : cellEvent cfg s m p tcp=.enter) : s.flowselectorKey (cellAt m.id (cellId cfg p tcp))=0 := by
  unfold cellEvent at h
  dsimp only at h
  split_ifs at h with hhit hfin hnep hfree hkey
  · bv_omega

/-- A segment meets a cell at a time in the current bin, and what the code concludes from the last
retransmission of the cell is right. -/
structure Poised (s : Registers) (m : Metadata) (c : CellId) (event : CellEvent) : Prop where
  start : (s.swTime m.id).toNat ≤ m.ingressTimestampMillisecond.toNat
  now : m.ingressTimestampMillisecond.toNat≤(s.swTime m.id).toNat+78
  lastRet : (s.flowselectorLastRet (cellAt m.id c)).toNat ≤ m.ingressTimestampMillisecond.toNat
  exact : event.takesBack → (s.flowselectorLastRet (cellAt m.id c)).toNat≠0 →
    (s.flowselectorLastRet (cellAt m.id c)).toNat+702≠(s.swTime m.id).toNat
  fresh : event=.retransmission → m.ingressTimestampMillisecond.toNat≠0
  key : event=.retransmission → s.flowselectorKey (cellAt m.id c)≠0
  enter : event=.enter → s.flowselectorKey (cellAt m.id c)=0
variable {event : CellEvent} {key nep : BitVec 32}
theorem Tracked.meet (h : Tracked cfg.junk s m.id age) (hpoised : Poised s m c event) :
    ∃ age', Tracked cfg.junk (s.meet cfg m c key nep event) m.id age' := by
  have hvacant (hback : event.takesBack) :=
    h.takeBack hpoised.start hpoised.now hpoised.lastRet (hpoised.exact hback)
  cases event with
  | finish => exact ⟨_,(hvacant rfl).occupy 0 0 0⟩
  | retransmission =>
    have hrecord := (hvacant rfl).record (by rw [Registers.takeBack_eq]; exact hpoised.start)
      (by rw [Registers.takeBack_eq]; exact hpoised.now)
      (Nat.pos_of_ne_zero (hpoised.fresh rfl))
      (by rw [Registers.takeBack_eq]; exact hpoised.key rfl)
    exact ⟨_,hrecord.congr (touch_unchanged nep m.ingressTimestampSecond)⟩
  | progress => exact ⟨_,h.congr (progress_unchanged.trans (touch_unchanged nep m.ingressTimestampSecond))⟩
  | enter => exact ⟨_,(h.vacant (h.age_eq_none (hpoised.enter rfl))).occupy key nep m.ingressTimestampSecond⟩
  | evict => exact ⟨_,(hvacant rfl).occupy key nep m.ingressTimestampSecond⟩
  | ignore => exact ⟨_,h⟩

theorem Tracked.bin_lt (h : Tracked junk s id age) (hstart : (s.swTime id).toNat≤t.toNat)
    (hnow : t.toNat≤(s.swTime id).toNat+78) (hret : (s.flowselectorLastRet (cellAt id c)).toNat≤t.toNat)
    (hin : s.InWindow id c t) : (s.flowselectorLastRetBin (cellAt id c)).toNat<10 := by
  have hcell := h.window.cell c
  rw [inWindow_iff hstart hnow hret] at hin
  cases hage : age c with
  | none =>
    rw [hage] at hcell
    change _=0 ∨ _≤(s.swTime id).toNat at hcell
    omega
  | some a =>
    rw [hage] at hcell
    obtain ⟨-,-,-,hbin⟩ := hcell
    rw [hbin]
    exact slot_lt (by decide) _ _

theorem Tracked.meet_unchanged (h : Tracked cfg.junk s m.id age) (hpoised : Poised s m c event)
    (hid : id'≠m.id) : Unchanged cfg.junk id' s (s.meet cfg m c key nep event) := by
  have hback : Unchanged cfg.junk id' s (s.takeBack cfg m.id c m.ingressTimestampMillisecond) :=
    takeBack_unchanged hid (h.bin_lt hpoised.start hpoised.now hpoised.lastRet)
  cases event with
  | finish | evict => exact hback.trans (occupy_unchanged hid _ _ _)
  | retransmission =>
    have hindex : ((s.takeBack cfg m.id c m.ingressTimestampMillisecond).swIndex m.id).toNat<10 := by
      rw [Registers.takeBack_eq]
      exact h.window.counts.index_lt
    exact hback.trans ((record_unchanged hid hindex).trans (touch_unchanged _ _))
  | progress => exact progress_unchanged.trans (touch_unchanged _ _)
  | enter => exact occupy_unchanged hid _ _ _
  | ignore => exact .refl _ _ _

theorem Registers.meet_swTime : (s.meet cfg m c key nep event).swTime=s.swTime := by
  cases event with
  | finish | retransmission | evict =>
    change (s.takeBack cfg m.id c m.ingressTimestampMillisecond).swTime=_
    rw [takeBack_eq]
  | progress =>
    funext id'
    have hsame : Unchanged cfg.junk id' s (s.progress m.id c m.ingressTimestampMillisecond) :=
      progress_unchanged
    exact hsame.time
  | enter | ignore => rfl

theorem Registers.meet_lastRet (id' : Prefix) (c' : CellId) :
    (s.meet cfg m c key nep event).flowselectorLastRet (cellAt id' c') = s.flowselectorLastRet (cellAt id' c') ∨
    (s.meet cfg m c key nep event).flowselectorLastRet (cellAt id' c')=0 ∨ event=.retransmission ∧ id'=m.id ∧ c'=c ∧
    (s.meet cfg m c key nep event).flowselectorLastRet (cellAt id' c') = m.ingressTimestampMillisecond := by
  have hwrite (v : BitVec 19) : s.flowselectorLastRet.write (cellAt m.id c) v (cellAt id' c') =
          s.flowselectorLastRet (cellAt id' c') ∨
        id'=m.id ∧ c'=c ∧ s.flowselectorLastRet.write (cellAt m.id c) v (cellAt id' c')=v := by
    rw [Register.write_apply]
    split_ifs with hcell
    · obtain ⟨hid,hc⟩ := cellAt_injective hcell
      exact .inr ⟨hid,hc,rfl⟩
    · exact .inl rfl
  have hoccupy : s.flowselectorLastRet.write (cellAt m.id c) 0 (cellAt id' c') = s.flowselectorLastRet (cellAt id' c') ∨
      s.flowselectorLastRet.write (cellAt m.id c) 0 (cellAt id' c')=0 :=
    (hwrite 0).imp id fun h => h.2.2
  cases event with
  | finish | evict =>
    unfold meet occupy
    rw [takeBack_eq]
    exact hoccupy.imp id .inl
  | retransmission =>
    unfold meet touch record
    rw [takeBack_eq]
    exact (hwrite _).imp id fun h => .inr ⟨rfl,h⟩
  | progress =>
    have hsame : Unchanged cfg.junk id' s (s.progress m.id c m.ingressTimestampMillisecond) :=
      progress_unchanged
    exact .inl (hsame.lastRet c')
  | enter => exact hoccupy.imp id .inl
  | ignore => exact .inl rfl
end P4Benchmarks.Blink
