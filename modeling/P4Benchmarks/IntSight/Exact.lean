import Mathlib.Data.List.Basic
import P4Benchmarks.IntSight.Network
/-! # The reports of a flow -/
namespace P4Benchmarks.IntSight
open Lib List Function State Reception
open BitVec hiding append_assoc
variable {V : Type}

scoped instance epochOrder : PartialOrder (BitVec 32) where
  le_refl := BitVec.le_refl
  le_trans := fun _ _ _ => BitVec.le_trans
  le_antisymm := fun _ _ => BitVec.le_antisymm
  lt_iff_le_not_ge := fun a b => by
    rw [lt_def,le_def,le_def]
    omega

theorem epochOf_mono {x y : BitVec 48} (h : x≤y) : epochOf x≤epochOf y := by
  have hval (z : BitVec 48) : (epochOf z).toNat=z.toNat/2^16 := by
    rw [epochOf,toNat_setWidth,toNat_ushiftRight,epochShift,Nat.shiftRight_eq_div_pow,Nat.mod_eq_of_lt (by omega)]
  rw [le_def] at h ⊢
  rw [hval,hval]
  exact Nat.div_le_div_right h

def rank (sent : List Stamp) (k : Nat) (e : BitVec 32) : Nat := (sent.take (k+1)).countP fun st => st.epoch=e
variable {sent : List Stamp}
theorem rank_append {k : Nat} (hk : k < sent.length) (more : List Stamp)
    (e : BitVec 32) : rank (sent++more) k e=rank sent k e := by
  rw [rank,take_append_of_le_length hk,rank]

private theorem foldl_count (es : List (BitVec 32)) (n : BitVec 32) :
    es.foldl (fun n _ => n+1) n=n+.ofNat 32 es.length := by
  induction es generalizing n with
  | nil => simp
  | cons e es ih =>
    rw [foldl_cons,ih,length_cons,BitVec.add_assoc,ofNat_add,BitVec.add_comm 1]
    rfl

theorem epoch_zero_le (e : BitVec 32) : 0≤e := by exact Nat.zero_le _

theorem countStep_fst (cell : BitVec 32 × BitVec 32) (e : BitVec 32) : (countStep cell e).1=e := by
  by_cases h : e=cell.1 <;> simp [countStep,epochStep,h]
variable {st : Stamp}
theorem foldl_countStep (hsorted : (sent++[st]).Pairwise fun a b => a.epoch≤b.epoch) :
    (((sent++[st]).map Stamp.epoch).foldl countStep (0,0)).2 = .ofNat 32 (rank (sent++[st]) sent.length st.epoch) := by
  have hkeys : ((sent++[st]).map Stamp.epoch).Pairwise fun a b => id a ≤ id b := by
    rw [pairwise_map]
    exact hsorted
  obtain ⟨k,hfold,-⟩ := foldl_epochStep id (fun (n : BitVec 32) _ => n+1) 0 (fun e _ => epoch_zero_le e) hkeys
  change ((sent++[st]).map Stamp.epoch).foldl countStep (0,0)=_ at hfold
  have hk : st.epoch=k := by
    rw [← countStep_fst ((sent.map Stamp.epoch).foldl countStep (0,0)) st.epoch]
    rw [map_append,foldl_append] at hfold
    exact congrArg Prod.fst hfold
  have hlen : (ofEpoch id k ((sent++[st]).map Stamp.epoch)).length = rank (sent++[st]) sent.length k := by
    rw [ofEpoch,filter_map,length_map,rank,take_of_length_le (by simp),countP_eq_length_filter]
    rfl
  rw [hfold,hk,← hlen]
  exact (foldl_count _ 0).trans (BitVec.zero_add _)

structure Reception.Known (sent : List Stamp) (r : Reception) : Prop where
  stamp : sent[r.index]?=some r.stamp
  epoch : r.telemetry.epoch=r.stamp.epoch
  packets : r.telemetry.ingressPackets=.ofNat 32 (rank sent r.index r.stamp.epoch)

structure InFlight.Known (flow : Flow V) (sent : List Stamp) (p : InFlight) : Prop where
  stamp : sent[p.index]?=some p.stamp
  frame : Stamped flow.src flow.dst p.stamp.epoch (.ofNat 32 (rank sent p.index p.stamp.epoch)) p.stamp.length p.frame

/-- Epochs do not decrease, packets arrive in the order in which they were sent, and each carries
what the ingress node put into it. -/
structure Ordered (flow : Flow V) (sent : List Stamp) (received : List Reception)
    (inFlight : List InFlight) : Prop where
  sorted : sent.Pairwise fun a b => a.epoch≤b.epoch
  order : (received.map (·.index)++inFlight.map (·.index)).Pairwise (· < ·)
  known : ∀ r ∈ received, r.Known sent
  underway : ∀ p ∈ inFlight, p.Known flow sent
  direct : flow.entry=flow.exit → inFlight=[]
section Ordered
variable {flow : Flow V} {sent : List Stamp} {received : List Reception} {inFlight : List InFlight}
private theorem lt_of_getElem? {k : Nat} (h : sent[k]?=some st) : k < sent.length :=
  (List.getElem?_eq_some_iff.mp h).1

private theorem getElem?_append {k : Nat} (h : sent[k]?=some st) (more : List Stamp) : (sent++more)[k]?=some st := by
  rw [List.getElem?_append_left (lt_of_getElem? h),h]

theorem Reception.Known.append {r : Reception} (h : r.Known sent) (more : List Stamp) : r.Known (sent++more) where
  stamp := getElem?_append h.stamp more
  epoch := h.epoch
  packets := by rw [h.packets,rank_append (lt_of_getElem? h.stamp)]

theorem InFlight.Known.append {p : InFlight} (h : p.Known flow sent) (more : List Stamp) :
    p.Known flow (sent++more) where
  stamp := getElem?_append h.stamp more
  frame := by
    rw [rank_append (lt_of_getElem? h.stamp)]
    exact h.frame
section
variable (h : Ordered flow sent received inFlight)
include h
theorem Ordered.index_lt {k : Nat} (hk : k ∈ received.map (·.index)++inFlight.map (·.index)) : k < sent.length := by
  simp only [mem_append,mem_map] at hk
  rcases hk with ⟨r,hr,rfl⟩ | ⟨p,hp,rfl⟩
  · exact lt_of_getElem? (h.known r hr).stamp
  · exact lt_of_getElem? (h.underway p hp).stamp

theorem Ordered.sublist {rest : List InFlight} (hrest : rest.Sublist inFlight) : Ordered flow sent received rest where
  __ := h
  order := h.order.sublist ((List.Sublist.refl _).append (hrest.map _))
  underway := fun p hp => h.underway p (hrest.subset hp)
  direct := fun heq => by
    have hnil := h.direct heq
    subst hnil
    exact sublist_nil.mp hrest

theorem Ordered.send (hmono : ∀ st' ∈ sent, st'.epoch ≤ st.epoch) : Ordered flow (sent++[st]) received inFlight where
  __ := h
  sorted := by
    rw [pairwise_append]
    refine ⟨h.sorted,pairwise_singleton _ _,?_⟩
    intro st' hst' x hx
    rw [mem_singleton.mp hx]
    exact hmono st' hst'
  known := fun r hr => (h.known r hr).append _
  underway := fun p hp => (h.underway p hp).append _

theorem Ordered.order_append : ((received.map (·.index)++inFlight.map (·.index))++[sent.length]).Pairwise (· < ·) := by
  rw [pairwise_append]
  refine ⟨h.order,pairwise_singleton _ _,?_⟩
  intro k hk x hx
  rw [mem_singleton.mp hx]
  exact h.index_lt hk

theorem Ordered.launch {g : Frame} (hmono : ∀ st' ∈ sent, st'.epoch ≤ st.epoch) (hne : flow.entry≠flow.exit)
    (hg : Stamped flow.src flow.dst st.epoch (.ofNat 32 (rank (sent++[st]) sent.length st.epoch)) st.length g) :
    Ordered flow (sent++[st]) received (inFlight++[⟨sent.length,st,g⟩]) where
  sorted := (h.send hmono).sorted
  order := by
    rw [map_append,← append_assoc]
    exact h.order_append
  known := (h.send hmono).known
  underway := by
    intro p hp
    rcases mem_append.mp hp with hp | hp
    · exact (h.send hmono).underway p hp
    · rw [mem_singleton.mp hp]
      exact ⟨by simp,hg⟩
  direct := fun heq => absurd heq hne
end

theorem Ordered.receive {rest : List InFlight} {r : Reception} (h : Ordered flow sent received rest) (hr : r.Known sent)
    (horder : (received.map (·.index)++r.index::rest.map (·.index)).Pairwise (· < ·)) :
    Ordered flow sent (received++[r]) rest where
  __ := h
  order := by simpa using horder
  known := by
    intro x hx
    rcases mem_append.mp hx with hx | hx
    · exact h.known x hx
    · rw [mem_singleton.mp hx]
      exact hr

theorem Ordered.reframe (h : Ordered flow sent received inFlight) {n : Nat} {p : InFlight}
    {g : Frame} (hp : inFlight[n]?=some p)
    (hg : Stamped flow.src flow.dst p.stamp.epoch (.ofNat 32 (rank sent p.index p.stamp.epoch)) p.stamp.length g) :
    Ordered flow sent received (inFlight.set n { p with frame := g }) where
  __ := h
  order := by
    have hmap : (inFlight.set n { p with frame := g }).map (·.index)=inFlight.map (·.index) := by
      apply ext_getElem?
      intro m
      rw [List.getElem?_map,List.getElem?_set,List.getElem?_map]
      by_cases hm : n=m
      · subst hm
        rw [if_pos rfl,if_pos (List.getElem?_eq_some_iff.mp hp).1,hp]
        rfl
      · rw [if_neg hm]
    rw [hmap]
    exact h.order
  underway := by
    intro q hq
    rcases mem_or_eq_of_mem_set hq with hq | rfl
    · exact h.underway q hq
    · exact ⟨(h.underway p (mem_of_getElem? hp)).stamp,hg⟩
  direct := fun heq => by
    rw [h.direct heq]
    rfl
end Ordered

def Reception.reading (t : Tables) (i : Fin regwid) (r : Reception) : Reading :=
  readingOf t (flowAt i) r.telemetry r.stamp.length

/-- The registers are the aggregate of the packets received, and each report is one that was
handed out on the way. -/
structure Collecting (t : Tables) (i : Fin regwid) (regs : Registers) (received : List Reception)
    (reports : List Report) : Prop where
  cell : regs.eCell i=(received.map (reading t i)).foldl collectStep (0,{})
  reports : ∀ r ∈ reports, r.drops=r.ingressPackets-r.egressPackets ∧ r.epoch≠0 ∧
    r.collected ∈ closedEpochs Reading.epoch collect {} (0,{}) (received.map (reading t i))
section Collecting
variable {t : Tables} {i : Fin regwid} {regs : Registers} {received : List Reception}
  {reports : List Report} {o : Outcome}

theorem Collecting.of_eCell_eq (h : Collecting t i regs received reports) {regs' : Registers}
    (hcell : regs'.eCell i=regs.eCell i) : Collecting t i regs' received reports :=
  ⟨hcell.trans h.cell,h.reports⟩

theorem Collecting.evaluated (h : Collecting t i regs received reports)
    {n : BitVec 32} {tel : Telemetry} {r : Reception} (hr : r.telemetry=tel)
    (hst : r.stamp=st) (ho : Evaluated t i regs o st.epoch n st.length tel) :
    Collecting t i o.regs (received++[r]) (reports++o.report.toList) where
  cell := by
    rw [map_append,foldl_append,← h.cell,ho.eCell,← hr,← hst]
    rfl
  reports := by
    intro x hx
    rw [map_append,map_singleton,closedEpochs_concat]
    rcases mem_append.mp hx with hx | hx
    · obtain ⟨hdrops,hpos,hclosed⟩ := h.reports x hx
      exact ⟨hdrops,hpos,mem_append_left _ hclosed⟩
    · obtain ⟨hcollected,hepoch,hpos,hdrops⟩ := ho.report x (Option.mem_toList.mp hx)
      have hfst : x.epoch=(regs.eCell i).1 := congrArg Prod.fst hcollected
      refine ⟨hdrops,hfst ▸ hpos,mem_append_right _ ?_⟩
      have hkey : (r.reading t i).epoch=st.epoch := by
        rw [reading,hr]
        exact ho.epoch
      have hfold : (received.map (reading t i)).foldl
          (epochStep Reading.epoch collect {}) (0,{})=regs.eCell i := h.cell.symm
      rw [hfold,hkey,if_neg hepoch,hcollected]
      exact mem_singleton_self _
end Collecting
section Run
variable {net : V → Tables} {flow : Flow V} {s t : State V}
structure Inv (net : V → Tables) (flow : Flow V) (s : State V) : Prop where
  ordered : Ordered flow s.sent s.received s.inFlight
  counter : (s.regs flow.entry).iCell flow.id=(s.sent.map Stamp.epoch).foldl countStep (0,0)
  collecting : Collecting (net flow.exit) flow.id (s.regs flow.exit) s.received s.reports

theorem inv_start (net : V → Tables) (flow : Flow V) : Inv net flow (start V) where
  ordered := ⟨.nil,.nil,by simp [start],by simp [start],fun _ => rfl⟩
  counter := rfl
  collecting := ⟨rfl,by simp [start]⟩

theorem flowIDApply_eq (t : Tables) {ip : Ipv4} {src dst : BitVec 32} (hsrc : ip.srcAddr=src)
    (hdst : ip.dstAddr=dst) : flowIDApply t ip=flowIDApply t ⟨0,0,0,src,dst⟩ := by
  rw [flowIDApply,hsrc,hdst]
  rfl
variable [DecidableEq V]
theorem update_view {β : Type} (regs : V → Registers) (view : Registers → β) {u v : V} {r : Registers}
    (h : v=u → view r=view (regs v)) : view (update regs v r u)=view (regs u) := by
  by_cases hv : u=v
  · subst hv
    rw [update_self]
    exact h rfl
  · rw [update_of_ne hv]
section
variable (h : Inv net flow s)
include h
theorem Inv.of_cells {v : V} {regs : Registers} (hi : v=flow.entry → regs.iCell flow.id=(s.regs v).iCell flow.id)
    (he : v=flow.exit → regs.eCell flow.id=(s.regs v).eCell flow.id)
    {inFlight : List InFlight} (hord : Ordered flow s.sent s.received inFlight) :
    Inv net flow { s with regs := update s.regs v regs, inFlight := inFlight } where
  ordered := hord
  counter := (update_view s.regs (fun r => r.iCell flow.id) hi).trans h.counter
  collecting := h.collecting.of_eCell_eq (update_view s.regs (fun r => r.eCell flow.id) he)

theorem Inv.lose (n : Nat) (hstep : step net flow s (.lose n)=some t) : Inv net flow t := by
  cases hstep
  exact ⟨h.ordered.sublist (eraseIdx_sublist _ _),h.counter,h.collecting⟩

theorem Inv.other {v : V} {f : Frame} {a : Passage} (hadm : Admissible net flow s (.other v f a))
    (hstep : step net flow s (.other v f a)=some t) : Inv net flow t := by
  cases hstep
  exact h.of_cells (fun hv => (pass_of_not_monitors (hadm (.inl hv))).1)
    (fun hv => (pass_of_not_monitors (hadm (.inr hv))).2) h.ordered

theorem Inv.transit {n : Nat} {v : V} {a : Passage} (hadm : Admissible net flow s (.transit n v a))
    (hstep : step net flow s (.transit n v a)=some t) : Inv net flow t := by
  obtain ⟨hinner,hinside⟩ := hadm
  rw [step] at hstep
  cases hp : s.inFlight[n]? with
  | none => simp [hp] at hstep
  | some p =>
    rw [hp] at hstep
    cases hroute : (net v).ipv4Lpm flow.dst with
    | ipv4Forward port =>
      have hport : ¬ port≤2 := by
        rw [forwardsInside,hroute] at hinside
        exact of_decide_eq_true hinside
      have hknown := h.ordered.underway p (mem_of_getElem? hp)
      obtain ⟨hregs,hreceived,hreport,hframe⟩ :=
        pass_transit hknown.frame hinner hroute hport (rfl : pass (net v) (s.regs v) p.frame a=_)
      cases hstep
      simp only [visit,hreceived,hreport,Option.map_none,Option.toList_none,append_nil]
      apply h.of_cells (fun _ => by rw [hregs]) (fun _ => by rw [hregs])
      cases hg : (pass (net v) (s.regs v) p.frame a).frame with
      | none => exact h.ordered.sublist (eraseIdx_sublist _ _)
      | some g => exact h.ordered.reframe hp (hframe g hg)
    | drop | noAction => simp [forwardsInside,hroute] at hinside
end
variable (hpath : OnePath net flow) (h : Inv net flow s)
include hpath h
theorem Inv.exit {a : Passage} (hadm : Admissible net flow s (.exit a)) (hstep : step net flow s (.exit a)=some t) :
    Inv net flow t := by
  rw [step] at hstep
  cases hfl : s.inFlight with
  | nil => simp [hfl] at hstep
  | cons p rest =>
    rw [hfl] at hstep
    have hord := h.ordered
    rw [hfl] at hord
    have hknown := hord.underway p mem_cons_self
    obtain ⟨port,hroute,hpos,hport⟩ := hpath.exit_route
    have hflow : flowIDApply (net flow.exit) p.frame.ipv4=flowAt flow.id := by
      rw [flowIDApply_eq _ hknown.frame.srcAddr hknown.frame.dstAddr,hpath.exit_id]
    obtain ⟨hi,hcases⟩ := pass_exit hknown.frame hadm hroute hpos hport hflow
      (rfl : pass (net flow.exit) (s.regs flow.exit) p.frame a=_)
    have hrest : Ordered flow s.sent s.received rest := hord.sublist (sublist_cons_self _ _)
    cases hstep
    rcases hcases with hsilent | ⟨tel,heval⟩
    · simp only [visit,hsilent.received,hsilent.report,Option.map_none,
        Option.toList_none,append_nil]
      exact h.of_cells (fun _ => hi) (fun _ => hsilent.eCell) hrest
    · simp only [visit,heval.received,Option.map_some,Option.toList_some]
      refine ⟨hrest.receive ⟨hknown.stamp,heval.epoch,heval.packets⟩ (by simpa using hord.order),?_,?_⟩
      · exact (update_view s.regs (fun r => r.iCell flow.id) fun _ => hi).trans h.counter
      · dsimp only
        rw [update_self]
        exact h.collecting.evaluated rfl rfl heval

theorem Inv.enter {f : Frame} {a : Passage} (hadm : Admissible net flow s (.enter f a)) (hclean : Clean s (.enter f a))
    (hstep : step net flow s (.enter f a)=some t) : Inv net flow t := by
  obtain ⟨hether,hsrc,hdst,hreport,hhost⟩ := hadm
  obtain ⟨hproto,htimes⟩ := hclean
  have hplain : Plain flow.src flow.dst f := by
    refine ⟨hether,hproto,?_,hsrc,hdst⟩
    intro hrep
    have hne : etherTypeIpv4≠etherTypeArp := by decide
    have hother : protocolReport≠protocolTelemetry := by decide
    simp [parse,parseIpv4,hether,hne,hother,hrep] at hreport
  have hmono : ∀ st ∈ s.sent, st.epoch≤epochOf a.ingressGlobalTimestamp := fun st hst =>
    epochOf_mono (htimes st hst)
  have hflow : flowIDApply (net flow.entry) f.ipv4=flowAt flow.id := by rw [flowIDApply_eq _ hsrc hdst,hpath.entry_id]
  obtain ⟨port,hroute,hpos,hend⟩ : ∃ port, (net flow.entry).ipv4Lpm flow.dst =
      .ipv4Forward port ∧ port≠0 ∧ (port≤2 ↔ flow.entry=flow.exit) := by
    by_cases heq : flow.entry=flow.exit
    · obtain ⟨port,hroute,hpos,hport⟩ := hpath.exit_route
      exact ⟨port,heq ▸ hroute,hpos,iff_of_true hport heq⟩
    · obtain ⟨port,hroute,hport⟩ := hpath.entry_route heq
      refine ⟨port,hroute,?_,iff_of_false hport heq⟩
      rintro rfl
      exact hport (by decide)
  obtain ⟨hi,hcases⟩ := pass_plain hplain hhost hroute hpos hflow
    (rfl : pass (net flow.entry) (s.regs flow.entry) f a=_)
  have hsend : Ordered flow (s.sent++[⟨a.ingressGlobalTimestamp,f.length⟩]) s.received
      s.inFlight := h.ordered.send hmono
  have hcounter : (update s.regs flow.entry (pass (net flow.entry) (s.regs flow.entry) f a).regs flow.entry).iCell flow.id =
      ((s.sent++[Stamp.mk a.ingressGlobalTimestamp f.length]).map Stamp.epoch).foldl countStep (0,0) := by
    rw [update_self,hi,h.counter,map_append,foldl_append]
    rfl
  have hrank := foldl_countStep hsend.sorted
  rw [← hcounter,update_self] at hrank
  have hkept {o : Outcome} (hsilent : Silent flow.id (s.regs flow.entry) o) := h.collecting.of_eCell_eq
    (update_view s.regs (fun r => r.eCell flow.id) fun _ => hsilent.eCell)
  cases hstep
  rcases hcases with ⟨hsilent,hlost⟩ | ⟨hport,hsilent,g,hg,hstamped⟩ | ⟨hport,tel,heval⟩
  · simp only [visit,hsilent.received,hsilent.report,hlost,Option.map_none,
      Option.toList_none,append_nil,ite_self]
    exact ⟨hsend,hcounter,hkept hsilent⟩
  · have hne : flow.entry≠flow.exit := fun heq => hport (hend.mpr heq)
    simp only [visit,hsilent.received,hsilent.report,hg,if_neg hne,Option.map_none,
      Option.map_some,Option.toList_none,Option.toList_some,append_nil]
    exact ⟨h.ordered.launch hmono hne (hrank ▸ hstamped),hcounter,hkept hsilent⟩
  · have heq : flow.entry=flow.exit := hend.mp hport
    have hcollecting := h.collecting
    rw [← heq] at hcollecting
    simp only [visit,heval.received,if_pos heq,Option.map_some,Option.toList_some,append_nil]
    refine ⟨hsend.receive ⟨by simp,heval.epoch,heval.packets.trans hrank⟩ ?_,hcounter,?_⟩
    · simpa [h.ordered.direct heq] using h.ordered.order_append
    · dsimp only
      rw [← heq,update_self]
      exact hcollecting.evaluated rfl rfl heval

theorem Inv.step {e : Event V} (hcond : Admissible net flow s e ∧ Clean s e) (hstep : step net flow s e=some t) :
    Inv net flow t := by
  obtain ⟨hadm,hclean⟩ := hcond
  cases e with
  | enter f a => exact h.enter hpath hadm hclean hstep
  | transit n v a => exact h.transit hadm hstep
  | lose n => exact h.lose n hstep
  | exit a => exact h.exit hpath hadm hstep
  | other v f a => exact h.other hadm hstep
end Run

theorem foldl_collect (rs : List Reading) (c : Collected) :
    (rs.foldl collect c).egressPackets=c.egressPackets+.ofNat 32 rs.length ∧
    (rs.foldl collect c).egressBytes=c.egressBytes+.ofNat 32 (rs.map (·.bytes.toNat)).sum ∧
    (rs.foldl collect c).highDelays=c.highDelays+.ofNat 32 (rs.countP (·.high)) ∧
    (rs.foldl collect c).contentionPoints =
      rs.foldl (fun points r => points|||r.contentionPoints) c.contentionPoints := by
  induction rs generalizing c with
  | nil => simp
  | cons r rs ih =>
    obtain ⟨hpackets,hbytes,hhigh,hpoints⟩ := ih (collect c r)
    refine ⟨hpackets.trans ?_,hbytes.trans ?_,hhigh.trans ?_,hpoints⟩
    · rw [collect,length_cons,ofNat_add,BitVec.add_assoc,BitVec.add_comm 1]
      rfl
    · rw [collect,map_cons,sum_cons,ofNat_add,ofNat_toNat,
        setWidth_eq,BitVec.add_assoc]
    · rw [collect,countP_cons,ofNat_add,BitVec.add_assoc,
        BitVec.add_comm (if r.high then 1 else 0)]
      cases r.high <;> rfl

theorem foldl_collect_ingressPackets (rs : List Reading) (r : Reading) (c : Collected) :
    ((rs++[r]).foldl collect c).ingressPackets=r.ingressPackets := by
  rw [foldl_append]
  rfl

theorem countP_take (sent : List Stamp) (n : Nat) (e : BitVec 32) : (sent.take n).countP (fun st => st.epoch=e) =
      ((List.range n).filter fun k => sent[k]?.map Stamp.epoch=some e).length := by
  induction n with
  | zero => simp
  | succ n ih =>
    rw [take_add_one,countP_append,ih,range_succ,filter_append,length_append]
    cases hn : sent[n]? with
    | none => simp [hn]
    | some st => by_cases hst : st.epoch=e <;> simp [hn,hst]
section Exact
variable {net : V → Tables} {flow : Flow V} {s : State V}
theorem Ordered.received_sorted {received : List Reception}
    {inFlight : List InFlight} (h : Ordered flow sent received inFlight) :
    received.Pairwise fun a b => a.stamp.epoch≤b.stamp.epoch := by
  have hindex : received.Pairwise fun a b => a.index<b.index := pairwise_map.mp (pairwise_append.mp h.order).1
  apply hindex.imp_of_mem
  intro a b ha hb hlt
  obtain ⟨hla,hgeta⟩ := List.getElem?_eq_some_iff.mp (h.known a ha).stamp
  obtain ⟨hlb,hgetb⟩ := List.getElem?_eq_some_iff.mp (h.known b hb).stamp
  rw [← hgeta,← hgetb]
  exact pairwise_iff_getElem.mp h.sorted _ _ hla hlb hlt

theorem ofEpoch_readings (h : Ordered flow s.sent s.received s.inFlight) (t : Tables) (i : Fin regwid) (e : BitVec 32) :
    ofEpoch Reading.epoch e (s.received.map (reading t i)) = (s.receivedIn e).map (reading t i) := by
  rw [ofEpoch,filter_map,receivedIn]
  congr 1
  apply filter_congr
  intro r hr
  change decide (r.telemetry.epoch=e)=_
  rw [(h.known r hr).epoch]
section
variable {e : BitVec 32} {rs : List Reception} {last : Reception}
  (h : Ordered flow s.sent s.received s.inFlight) (hlast : s.receivedIn e=rs++[last])
include h hlast
theorem index_le_last {r : Reception} (hr : r ∈ s.receivedIn e) : r.index≤last.index := by
  have hindex : s.received.Pairwise fun a b => a.index<b.index := pairwise_map.mp (pairwise_append.mp h.order).1
  have hsorted := hindex.filter fun r => r.stamp.epoch=e
  change (s.receivedIn e).Pairwise _ at hsorted
  rw [hlast] at hsorted hr
  rcases mem_append.mp hr with hr | hr
  · exact Nat.le_of_lt ((pairwise_append.mp hsorted).2.2 r hr last (mem_singleton_self _))
  · exact Nat.le_of_eq (congrArg index (mem_singleton.mp hr))

theorem received_positions : (((List.range (last.index+1)).filter fun k => s.sent[k]?.map Stamp.epoch=some e).filter
      fun k => k ∈ s.received.map (·.index)).length=(s.receivedIn e).length := by
  have hnodup : ((s.receivedIn e).map (·.index)).Nodup := by
    have hstrict := (pairwise_append.mp h.order).1
    have hsub : ((s.receivedIn e).map (·.index)).Sublist (s.received.map (·.index)) := filter_sublist.map _
    exact (hstrict.sublist hsub).imp Nat.ne_of_lt
  rw [← length_map (f := fun r : Reception => r.index)]
  apply List.Perm.length_eq
  rw [perm_ext_iff_of_nodup ((nodup_range.filter _).filter _) hnodup]
  intro k
  simp only [mem_filter,mem_range,mem_map,decide_eq_true_eq]
  constructor
  · rintro ⟨⟨-,hepoch⟩,r,hr,rfl⟩
    rw [(h.known r hr).stamp] at hepoch
    exact ⟨r,mem_filter.mpr ⟨hr,by simpa using hepoch⟩,rfl⟩
  · rintro ⟨r,hr,rfl⟩
    obtain ⟨hmem,hepoch⟩ := mem_filter.mp hr
    refine ⟨⟨Nat.lt_succ_of_le (index_le_last h hlast hr),?_⟩,r,hmem,rfl⟩
    rw [(h.known r hmem).stamp]
    simpa using hepoch

/-- Up to the last received packet of an epoch, the packets of the epoch are those received and
those lost. -/
theorem rank_last : rank s.sent last.index e=(s.receivedIn e).length+(s.lostBeforeLast e).length := by
  have hmem : last ∈ s.received := by
    have : last ∈ s.receivedIn e := by rw [hlast]; simp
    exact (mem_filter.mp this).1
  -- nothing that was sent before a received packet is still on its way
  have hbefore {k : Nat} (hk : k<last.index) : k ∉ s.inFlight.map (·.index) := by
    intro hfl
    have hlt := (pairwise_append.mp h.order).2.2 last.index (mem_map_of_mem hmem) k hfl
    omega
  rw [rank,countP_take,length_eq_length_filter_add fun k => k ∈ s.received.map (·.index),
    received_positions h hlast,range_succ,filter_append,filter_append,
    lostBeforeLast,hlast,List.getLast?_concat]
  have hself : ([last.index].filter fun k => s.sent[k]?.map Stamp.epoch=some e).filter
      (fun k => !decide (k ∈ s.received.map (·.index)))=[] := by
    rw [filter_eq_nil_iff]
    intro k hk
    rw [mem_singleton.mp (mem_of_mem_filter hk)]
    simpa using ⟨last,hmem,rfl⟩
  have hlost : ((List.range last.index).filter fun k =>
        s.sent[k]?.map Stamp.epoch=some e).filter (fun k => !decide (k ∈ s.received.map (·.index))) =
      (List.range last.index).filter fun k => s.sent[k]?.map Stamp.epoch=some e ∧ s.Lost k := by
    rw [filter_filter]
    apply filter_congr
    intro k hk
    have hfl := hbefore (mem_range.mp hk)
    cases hget : s.sent[k]? with
    | none => simp
    | some st =>
      have hlt := (List.getElem?_eq_some_iff.mp hget).1
      by_cases hst : st.epoch=e <;> by_cases hrec : k ∈ s.received.map (·.index) <;>
        simp only [State.Lost,hrec,hlt,hfl] <;> simp [hst]
  rw [hself,hlost,append_nil]
end

theorem Inv.exact (h : Inv net flow s) {r : Report} (hr : r ∈ s.reports) : Exact net flow s r := by
  obtain ⟨hdrops,hpos,hclosed⟩ := h.collecting.reports r hr
  have hsorted : (s.received.map (reading (net flow.exit) flow.id)).Pairwise fun a b => a.epoch≤b.epoch := by
    rw [pairwise_map]
    apply h.ordered.received_sorted.imp_of_mem
    intro a b ha hb hle
    change a.telemetry.epoch≤b.telemetry.epoch
    rw [(h.ordered.known a ha).epoch,(h.ordered.known b hb).epoch]
    exact hle
  obtain ⟨hagg,hopen,-⟩ := closedEpochs_exact (fun a _ => epoch_zero_le a.epoch) hsorted hclosed
  rw [ofEpoch_readings h.ordered] at hagg
  change r.collected.2=((s.receivedIn r.epoch).map _).foldl collect {} at hagg
  obtain ⟨hpackets,hbytes,hhigh,hpoints⟩ := foldl_collect
    ((s.receivedIn r.epoch).map (reading (net flow.exit) flow.id)) {}
  rw [← hagg] at hpackets hbytes hhigh hpoints
  have hegress : r.egressPackets=.ofNat 32 (s.receivedIn r.epoch).length := by
    rw [length_map] at hpackets
    exact hpackets.trans (BitVec.zero_add _)
  refine ⟨hegress,?_,?_,?_,?_⟩
  · rw [map_map] at hbytes
    exact hbytes.trans (BitVec.zero_add _)
  · have hne : s.receivedIn r.epoch≠[] := by
      rcases hopen with hzero | ⟨x,hx,hepoch⟩
      · exact absurd hzero hpos
      · obtain ⟨y,hy,rfl⟩ := mem_map.mp hx
        apply ne_nil_of_mem (a := y)
        refine mem_filter.mpr ⟨hy,?_⟩
        rw [← (h.ordered.known y hy).epoch]
        exact decide_eq_true hepoch
    obtain ⟨rs,last,hlast⟩ := (eq_nil_or_concat _).resolve_left hne
    rw [concat_eq_append] at hlast
    have hmem := mem_filter.mp (hlast ▸ mem_append_right rs (mem_singleton_self last))
    have hingress : r.ingressPackets=.ofNat 32 (rank s.sent last.index r.epoch) := by
      have hlastPackets := congrArg Collected.ingressPackets hagg
      rw [hlast,map_append,map_singleton,foldl_collect_ingressPackets] at hlastPackets
      rw [← of_decide_eq_true hmem.2]
      exact hlastPackets.trans (h.ordered.known last hmem.1).packets
    rw [hdrops,hingress,hegress,rank_last h.ordered hlast,ofNat_add,BitVec.add_comm,BitVec.add_sub_cancel]
  · rw [countP_map] at hhigh
    exact hhigh.trans (BitVec.zero_add _)
  · rw [foldl_map] at hpoints
    exact hpoints
variable [DecidableEq V]
/-- In every run that starts with zero registers, whatever is lost and whenever packets arrive, the
reports of a flow are exact, as long as no host sends packets of the flow with the protocol number
of the telemetry header and the clock of the ingress node does not wrap around. -/
theorem reports_exact (hpath : OnePath net flow) {events : List (Event V)}
    (hrun : exec (step net flow) (start V) events=some s)
    (hadm : EachStep (step net flow) (Admissible net flow) (start V) events)
    (hclean : EachStep (step net flow) Clean (start V) events) : ∀ r ∈ s.reports, Exact net flow s r := by
  have hinv : Inv net flow s :=
    exec_invariant (fun _ _ _ h hcond hstep => h.step hpath hcond hstep) (inv_start net flow) hrun (hadm.and hclean)
  exact fun r hr => hinv.exact hr
end Exact

def onePortTables (port : BitVec 9) : Tables where
  ipv4Lpm := fun _ => .ipv4Forward port
  flowID := fun _ _ => some 0
  nodeID := 0
  contentionThresholds := fun _ => some (1000,1000)
  suspicionThresholds := fun _ => none
  updatePathID := fun _ _ _ _ => none
  e2eDelayThreshold := fun _ => none
  highDelaysThreshold := fun _ => none
  bandwidthThresholds := fun _ => none

def twoSwitches (v : Bool) : Tables := if v then onePortTables 1 else onePortTables 3
def hostFlow : Flow Bool := ⟨1,2,false,true,⟨0,by decide⟩⟩

theorem hostFlow_onePath : OnePath twoSwitches hostFlow where
  entry_id := rfl
  exit_id := rfl
  exit_route := ⟨1,rfl,by decide,by decide⟩
  entry_route := fun _ => ⟨3,rfl,by decide⟩

def counted (epoch packets : BitVec 32) : Telemetry := ⟨epoch,0,0,0,0,0,0,packets,0,6⟩
def noReport : Report := ⟨0,0,0,0,0,0,0,0,0,0,0,0,0,0,0⟩

def hostPacket (protocol : BitVec 8) (payload : Telemetry) : Frame :=
  ⟨etherTypeIpv4,0,⟨86,64,protocol,1,2⟩,payload,noReport,100⟩

def arrival (port : BitVec 9) (epoch : Nat) (lost : Bool) : Passage :=
  ⟨port,.ofNat 48 (epoch*65536),0,0,lost,fun _ => 0⟩

def lossyRun : List (Event Bool) :=
  [.enter (hostPacket 6 (counted 0 0)) (arrival 1 1 false),.exit (arrival 3 1 false),
    .enter (hostPacket 6 (counted 0 0)) (arrival 1 1 true),
    .enter (hostPacket 6 (counted 0 0)) (arrival 1 1 false),.exit (arrival 3 1 false),
    .enter (hostPacket 6 (counted 0 0)) (arrival 1 2 false),.exit (arrival 3 2 false)]

theorem lossy_epoch_reported : ∃ s, exec (step twoSwitches hostFlow) (start Bool) lossyRun=some s ∧
      s.reports.map (fun r => (r.epoch,r.egressPackets,r.egressBytes,r.drops))=[(1,2,200,1)] ∧
      ∀ r ∈ s.reports, Exact twoSwitches hostFlow s r := by
  have hview : (exec (step twoSwitches hostFlow) (start Bool) lossyRun).map
      (fun s => s.reports.map fun r => (r.epoch,r.egressPackets,r.egressBytes,r.drops)) =
        some [(1,2,200,1)] := by decide +kernel
  obtain ⟨s,hs,hreports⟩ := Option.map_eq_some_iff.mp hview
  exact ⟨s,hs,hreports,reports_exact hostFlow_onePath hs (by decide +kernel) (by decide +kernel)⟩

/-- Between two ordinary packets a host sends one with the protocol number of the telemetry header
and a counter of its own choice. -/
def forgedRun : List (Event Bool) :=
  [.enter (hostPacket 6 (counted 0 0)) (arrival 1 1 false),.exit (arrival 3 1 false),
    .enter (hostPacket protocolTelemetry (counted 1 1000)) (arrival 1 1 false),
    .exit (arrival 3 1 false),
    .enter (hostPacket 6 (counted 0 0)) (arrival 1 2 false),.exit (arrival 3 2 false)]

/-- Nothing is lost, but the report says that 998 packets were, and it counts 33 bytes less than
the ingress node saw. -/
theorem forged_counter_reported :
    OnePath twoSwitches hostFlow ∧ EachStep (step twoSwitches hostFlow) (Admissible twoSwitches hostFlow)
    (start Bool) forgedRun ∧ ∃ s, exec (step twoSwitches hostFlow) (start Bool) forgedRun=some s ∧
    s.lostBeforeLast 1=[] ∧ (s.receivedIn 1).map (·.stamp.length)=[100,100] ∧ ∃ r ∈ s.reports, r.epoch=1 ∧ r.drops=998 ∧
    r.egressBytes=167 ∧ ¬ Exact twoSwitches hostFlow s r := by
  refine ⟨hostFlow_onePath,by decide +kernel,?_⟩
  have hview : (exec (step twoSwitches hostFlow) (start Bool) forgedRun).map (fun s =>
      (s.lostBeforeLast 1,(s.receivedIn 1).map (·.stamp.length),
        s.reports.map fun r => (r.epoch,r.drops,r.egressBytes))) =
      some ([],[100,100],[(1,998,167)]) := by decide +kernel
  obtain ⟨s,hs,hs'⟩ := Option.map_eq_some_iff.mp hview
  simp only [Prod.mk.injEq,map_eq_singleton_iff] at hs'
  obtain ⟨hlost,hlengths,r,hr,hepoch,hdrops,hbytes⟩ := hs'
  refine ⟨s,hs,hlost,hlengths,r,by simp [hr],hepoch,hdrops,hbytes,?_⟩
  intro hexact
  have heq := hexact.drops
  rw [hepoch,hlost,hdrops] at heq
  exact absurd heq (by decide)
end P4Benchmarks.IntSight
