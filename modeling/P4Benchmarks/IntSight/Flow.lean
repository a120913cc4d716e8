import P4Benchmarks.IntSight.Node
import P4Benchmarks.Lib.Epochs
/-! # One flow at one switch -/
namespace P4Benchmarks.IntSight
open Lib Register
@[ext] structure Collected where
  ingressPackets : BitVec 32 := 0
  egressPackets : BitVec 32 := 0
  egressBytes : BitVec 32 := 0
  highDelays : BitVec 32 := 0
  contentionPoints : BitVec 48 := 0
deriving DecidableEq

structure Reading where
  (epoch ingressPackets bytes : BitVec 32)
  high : Bool
  contentionPoints : BitVec 48

def collect (c : Collected) (r : Reading) : Collected where
  ingressPackets := r.ingressPackets
  egressPackets := c.egressPackets+1
  egressBytes := c.egressBytes+r.bytes
  highDelays := c.highDelays + if r.high then 1 else 0
  contentionPoints := c.contentionPoints|||r.contentionPoints

def Registers.iCell (regs : Registers) (i : Fin regwid) : BitVec 32 × BitVec 32 :=
  (regs.iEpoch i,regs.iIngressPackets i)

def Registers.eCell (regs : Registers) (i : Fin regwid) : BitVec 32 × Collected :=
  (regs.eEpoch i,
    { ingressPackets := regs.eIngressPackets i
      egressPackets := regs.eEgressPackets i
      egressBytes := regs.eEgressBytes i
      highDelays := regs.eHighDelays i
      contentionPoints := regs.eContentionPoints i })

def countStep (cell : BitVec 32 × BitVec 32) (epoch : BitVec 32) : BitVec 32 × BitVec 32 :=
  epochStep id (fun n _ => n+1) 0 cell epoch

def collectStep (cell : BitVec 32 × Collected) (r : Reading) : BitVec 32 × Collected :=
  epochStep Reading.epoch collect {} cell r

def Report.collected (r : Report) : BitVec 32 × Collected :=
  (r.epoch,
    { ingressPackets := r.ingressPackets
      egressPackets := r.egressPackets
      egressBytes := r.egressBytes
      highDelays := r.highDelays
      contentionPoints := r.contentionPoints })

def readingOf (t : Tables) (flow : BitVec 32) (tel : Telemetry) (bytes : BitVec 32) : Reading where
  epoch := tel.epoch
  ingressPackets := tel.ingressPackets
  bytes := bytes
  high := highE2eDelay t flow tel.e2eDelay
  contentionPoints := tel.contentionPoints

def flowAt (i : Fin regwid) : BitVec 32 := .ofNat 32 i

theorem toNat_flowAt (i : Fin regwid) : (flowAt i).toNat=i := by
  have hi : i.val<2^32 := Nat.lt_trans i.isLt (by decide)
  rw [flowAt,BitVec.toNat_ofNat,Nat.mod_eq_of_lt hi]

theorem ne_of_flowAt_ne {i j : Fin regwid} {flow : BitVec 32} (h : flow≠flowAt i)
    (hj : j.val=i) : j.val≠flow.toNat := by
  intro hflow
  apply h
  apply BitVec.eq_of_toNat_eq
  rw [toNat_flowAt,← hj,hflow]
section Registers
variable (t : Tables) (regs : Registers) (cmd : Metadata) (a : Passage) (length : BitVec 32) (tel : Telemetry)
variable {i : Fin regwid}
theorem iCell_countIngress (hflow : cmd.flowID=flowAt i) :
    (countIngress a.junk regs cmd length).1.iCell i=countStep (regs.iCell i) cmd.currentEpoch ∧
    (countIngress a.junk regs cmd length).2.iIngressPackets = ((countIngress a.junk regs cmd length).1.iCell i).2 := by
  have hnat : cmd.flowID.toNat=i.val := by rw [hflow,toNat_flowAt]
  simp only [countIngress,Registers.iCell,countStep,epochStep,hnat,write_apply,read_val,id_eq,if_true,and_true]
  by_cases hsame : regs.iEpoch i=cmd.currentEpoch
  · simp [hsame]
  · simp [hsame,Ne.symm hsame]

theorem iCell_countIngress_of_ne (hflow : cmd.flowID≠flowAt i) :
    (countIngress a.junk regs cmd length).1.iCell i=regs.iCell i := by
  have hne : i.val≠cmd.flowID.toNat := ne_of_flowAt_ne hflow rfl
  simp [countIngress,Registers.iCell,write_apply,hne]

theorem eCell_updateRegisters_of_ne (hflow : cmd.flowID≠flowAt i) :
    (updateRegisters t regs cmd a length tel).eCell i=regs.eCell i := by
  have hne : i.val≠cmd.flowID.toNat := ne_of_flowAt_ne hflow rfl
  have hhigh (v w : BitVec 32) (p : Prop) [Decidable p] (q : Bool) :
      (if p then regs.eHighDelays.write cmd.flowID.toNat v
        else if q then regs.eHighDelays.write cmd.flowID.toNat w else regs.eHighDelays) i =
      regs.eHighDelays i := by
    split_ifs <;> simp [write_apply,hne]
  simp only [updateRegisters,Registers.eCell,write_apply,hne,if_false,hhigh]

theorem eCell_updateRegisters (hflow : cmd.flowID=flowAt i) :
    (updateRegisters t regs (readFlow a.junk regs cmd) a length tel).eCell i =
      collectStep (regs.eCell i) (readingOf t cmd.flowID tel (length-egressBytesThs cmd)) := by
  have hnat : cmd.flowID.toNat=i.val := by rw [hflow,toNat_flowAt]
  simp only [updateRegisters,Registers.eCell,collectStep,epochStep,readingOf,collect,
    egressBytesThs,readFlow,hnat,write_apply,read_val,if_true]
  by_cases hsame : tel.epoch=regs.eEpoch i <;> by_cases hhigh : highE2eDelay t cmd.flowID tel.e2eDelay <;>
    simp [hsame,hhigh,write_apply,BitVec.sub_eq_add_neg,BitVec.add_assoc]

theorem report_egressNode (hdrs : Headers) (hflow : cmd.flowID=flowAt i) (hcmd : cmd.eReport=false) {r : Report}
    (hr : (egressNode t regs hdrs cmd a length tel).report=some r) :
    r.collected=regs.eCell i ∧ tel.epoch≠(regs.eCell i).1 ∧ (regs.eCell i).1≠0 ∧
      r.drops=r.ingressPackets-r.egressPackets := by
  have hnat : cmd.flowID.toNat=i.val := by rw [hflow,toNat_flowAt]
  have hepoch : (readFlow a.junk regs cmd).eEpoch=regs.eEpoch i := by simp only [readFlow,hnat,read_val]
  have hquiet : (readFlow a.junk regs cmd).eReport=false := hcmd
  simp only [egressNode] at hr
  by_cases hnew : tel.epoch≠(readFlow a.junk regs cmd).eEpoch ∧ 0<(readFlow a.junk regs cmd).eEpoch
  · rw [decideReport,if_pos hnew] at hr
    simp only [Bool.true_or,if_true,Option.some.injEq] at hr
    rw [hepoch] at hnew
    subst hr
    have hpos : regs.eEpoch i≠0 := by
      intro hzero
      rw [hzero] at hnew
      exact absurd hnew.2 (by decide)
    refine ⟨?_,hnew.1,hpos,rfl⟩
    simp only [createReport,Report.collected,Registers.eCell,readFlow,hnat,read_val]
  · rw [decideReport,if_neg hnew,hquiet] at hr
    cases hr
end Registers
section Controls
variable {t : Tables} {regs : Registers} {hdrs : Headers} {cmd : Metadata} {a : Passage}
  {length : BitVec 32} {port : BitVec 9} {i : Fin regwid}

@[simp] theorem eCell_ingress : (ingress t regs hdrs a length).regs.eCell i=regs.eCell i := by
  unfold ingress
  cases hdrs.ipv4 with
  | none => rfl
  | some ip =>
    dsimp only
    split_ifs <;> rfl

theorem flowIDApply_ipv4LpmApply (t : Tables) (ip : Ipv4) : flowIDApply t (ipv4LpmApply t ip).1=flowIDApply t ip := by
  unfold ipv4LpmApply
  cases t.ipv4Lpm ip.dstAddr <;> rfl

theorem flowID_classify {ip : Ipv4} (h : (classify t ip a port).isIngressNode ∨ (classify t ip a port).isEgressNode) :
    (classify t ip a port).flowID=flowIDApply t ip := by
  unfold classify at h ⊢
  by_cases hmon : a.ingressPort≤2 ∨ port≤2
  · rw [if_pos hmon]
  · rw [if_neg hmon] at h
    simp at h

theorem egress_cases (t : Tables) (regs : Registers) (hdrs : Headers) (cmd : Metadata)
    (a : Passage) (length : BitVec 32) (port : BitVec 9) :
    (egress t regs hdrs cmd a length port).regs=regs ∨ cmd.isEgressNode ∧ ∃ hdrs' tel,
        egress t regs hdrs cmd a length port=egressNode t regs hdrs' cmd a length tel := by
  unfold egress
  by_cases hmon : hdrs.report.isNone ∧ hdrs.arp=false
  · rw [if_pos hmon]
    dsimp only
    split
    · exact .inl rfl
    · by_cases heg : cmd.isEgressNode
      · rw [if_pos heg]
        exact .inr ⟨heg,_,_,rfl⟩
      · rw [if_neg heg]
        exact .inl rfl
  · rw [if_neg hmon]
    exact .inl rfl

@[simp] theorem iCell_egress : (egress t regs hdrs cmd a length port).regs.iCell i=regs.iCell i := by
  rcases egress_cases t regs hdrs cmd a length port with h | ⟨-,hdrs',tel,h⟩
  · rw [h]
  · rw [h]
    rfl

theorem eCell_egress_of_ne (hne : cmd.isEgressNode → cmd.flowID≠flowAt i) :
    (egress t regs hdrs cmd a length port).regs.eCell i=regs.eCell i := by
  rcases egress_cases t regs hdrs cmd a length port with h | ⟨heg,hdrs',tel,h⟩
  · rw [h]
  · rw [h]
    exact eCell_updateRegisters_of_ne t regs _ a length _ (hne heg)

theorem ingress_of_ne (hne : ∀ ip, hdrs.ipv4=some ip → hdrs.report.isNone → flowIDApply t ip≠flowAt i) :
    (ingress t regs hdrs a length).regs.iCell i=regs.iCell i ∧ ((ingress t regs hdrs a length).cmd.isEgressNode →
        (ingress t regs hdrs a length).cmd.flowID≠flowAt i) := by
  unfold ingress
  cases hip : hdrs.ipv4 with
  | none => exact ⟨rfl,by simp⟩
  | some ip =>
    dsimp only
    by_cases hmon : (ipv4LpmApply t ip).2≠0 ∧ hdrs.report.isNone
    · have hflow : flowIDApply t (ipv4LpmApply t ip).1≠flowAt i := by
        rw [flowIDApply_ipv4LpmApply]
        exact hne ip hip hmon.2
      rw [if_pos hmon]
      by_cases hcount : hdrs.telemetry.isNone ∧ (classify t (ipv4LpmApply t ip).1 a (ipv4LpmApply t ip).2).isIngressNode
      · rw [if_pos hcount]
        have hid := flowID_classify (.inl hcount.2)
        refine ⟨iCell_countIngress_of_ne _ _ _ _ (hid ▸ hflow),fun _ => ?_⟩
        exact hid ▸ hflow
      · rw [if_neg hcount]
        refine ⟨rfl,fun heg => ?_⟩
        rw [flowID_classify (.inr heg)]
        exact hflow
    · rw [if_neg hmon]
      exact ⟨rfl,by simp⟩
end Controls

def monitors (t : Tables) (i : Fin regwid) (f : Frame) : Bool :=
  match (parse f).ipv4 with
  | none => false
  | some ip => (parse f).report.isNone&&decide (flowIDApply t ip=flowAt i)

structure Plain (src dst : BitVec 32) (f : Frame) : Prop where
  etherType : f.etherType=etherTypeIpv4
  protocol : f.ipv4.protocol≠protocolTelemetry
  notReport : f.ipv4.protocol≠protocolReport
  srcAddr : f.ipv4.srcAddr=src
  dstAddr : f.ipv4.dstAddr=dst

structure Stamped (src dst : BitVec 32) (e n len : BitVec 32) (f : Frame) : Prop where
  etherType : f.etherType=etherTypeIpv4
  protocol : f.ipv4.protocol=protocolTelemetry
  nextHeader : f.telemetry.nextHeader≠protocolReport
  srcAddr : f.ipv4.srcAddr=src
  dstAddr : f.ipv4.dstAddr=dst
  epoch : f.telemetry.epoch=e
  packets : f.telemetry.ingressPackets=n
  length : f.length=len+.ofNat 32 telemetryHs

theorem Plain.parse_eq {src dst : BitVec 32} {f : Frame} (h : Plain src dst f) : parse f={ ipv4 := some f.ipv4 } := by
  have hne : etherTypeIpv4≠etherTypeArp := by decide
  simp [parse,parseIpv4,h.etherType,hne,h.protocol,h.notReport]

theorem Stamped.parse_eq {src dst e n len : BitVec 32} {f : Frame} (h : Stamped src dst e n len f) :
    parse f={ ipv4 := some f.ipv4, telemetry := some f.telemetry } := by
  have hne : etherTypeIpv4≠etherTypeArp := by decide
  simp [parse,parseIpv4,h.etherType,hne,h.protocol,h.nextHeader]

structure Silent (i : Fin regwid) (regs : Registers) (o : Outcome) : Prop where
  received : o.received=none
  report : o.report=none
  eCell : o.regs.eCell i=regs.eCell i

structure Evaluated (t : Tables) (i : Fin regwid) (regs : Registers) (o : Outcome)
    (e n bytes : BitVec 32) (tel : Telemetry) : Prop where
  received : o.received=some tel
  epoch : tel.epoch=e
  packets : tel.ingressPackets=n
  eCell : o.regs.eCell i=collectStep (regs.eCell i) (readingOf t (flowAt i) tel bytes)
  report : ∀ r, o.report=some r → r.collected=regs.eCell i ∧ e≠(regs.eCell i).1 ∧
    (regs.eCell i).1≠0 ∧ r.drops=r.ingressPackets-r.egressPackets
section Packets
variable {t : Tables} {regs : Registers} {f : Frame} {a : Passage} {i : Fin regwid}
  {src dst : BitVec 32} {port : BitVec 9}

theorem pass_of_not_monitors (h : monitors t i f=false) : (pass t regs f a).regs.iCell i=regs.iCell i ∧
      (pass t regs f a).regs.eCell i=regs.eCell i := by
  have hne : ∀ ip, (parse f).ipv4=some ip → (parse f).report.isNone → flowIDApply t ip≠flowAt i := by
    intro ip hip hreport hflow
    simp [monitors,hip,hreport,hflow] at h
  obtain ⟨hi,hflow⟩ := @ingress_of_ne t regs (parse f) a f.length i hne
  unfold pass
  dsimp only
  split_ifs
  · exact ⟨hi,eCell_ingress⟩
  · exact ⟨iCell_egress.trans hi,(eCell_egress_of_ne hflow).trans eCell_ingress⟩

structure Counted (i : Fin regwid) (a : Passage) (port : BitVec 9) (regs regs' : Registers)
    (cmd : Metadata) : Prop where
  iCell : regs'.iCell i=countStep (regs.iCell i) (epochOf a.ingressGlobalTimestamp)
  eCell : regs'.eCell i=regs.eCell i
  isIngressNode : cmd.isIngressNode
  isEgressNode : cmd.isEgressNode=decide (port≤2)
  flowID : cmd.flowID=flowAt i
  currentEpoch : cmd.currentEpoch=epochOf a.ingressGlobalTimestamp
  packets : cmd.iIngressPackets=(regs'.iCell i).2
  eReport : cmd.eReport=false
variable {ip : Ipv4}
theorem ipv4LpmApply_forward (hroute : t.ipv4Lpm ip.dstAddr=.ipv4Forward port) :
    ipv4LpmApply t ip=({ ip with ttl := ip.ttl-1 },port) := by
  simp [ipv4LpmApply,hroute]

theorem ingress_plain (hroute : t.ipv4Lpm ip.dstAddr=.ipv4Forward port)
    (hport : port≠0) (hhost : a.ingressPort≤2) (hflow : flowIDApply t ip=flowAt i)
    (regs : Registers) (length : BitVec 32) :
    ∃ regs' cmd, ingress t regs { ipv4 := some ip } a length =
        ⟨regs',{ ipv4 := some { ip with ttl := ip.ttl-1 } },cmd,port⟩ ∧
      Counted i a port regs regs' cmd := by
  have hcmd : classify t { ip with ttl := ip.ttl-1 } a port =
      { isIngressNode := true
        isEgressNode := decide (port≤2)
        nodeID := t.nodeID
        flowID := flowAt i
        currentEpoch := epochOf a.ingressGlobalTimestamp } := by
    rw [classify,if_pos (.inl hhost),← hflow,decide_eq_true hhost]
    rfl
  have hcount := iCell_countIngress regs
    (classify t { ip with ttl := ip.ttl-1 } a port) a length (i := i) (by rw [hcmd])
  refine ⟨(countIngress a.junk regs (classify t { ip with ttl := ip.ttl-1 } a port) length).1,
    (countIngress a.junk regs (classify t { ip with ttl := ip.ttl-1 } a port) length).2,?_,?_⟩
  · simp only [ingress,ipv4LpmApply_forward hroute]
    rw [if_pos ⟨hport,rfl⟩,if_pos ⟨rfl,by rw [hcmd]⟩]
  · rw [hcmd] at hcount ⊢
    exact ⟨hcount.1,rfl,rfl,rfl,rfl,rfl,hcount.2,rfl⟩
variable {tel : Telemetry}
theorem ingress_stamped (hroute : t.ipv4Lpm ip.dstAddr=.ipv4Forward port) (hport : port≠0) (length : BitVec 32) :
    ingress t regs { ipv4 := some ip, telemetry := some tel } a length =
      ⟨regs,{ ipv4 := some { ip with ttl := ip.ttl-1 }, telemetry := some tel },
        classify t { ip with ttl := ip.ttl-1 } a port,port⟩ := by
  simp only [ingress,ipv4LpmApply_forward hroute]
  rw [if_pos ⟨hport,rfl⟩,if_neg (by simp)]
variable {cmd : Metadata}
theorem egress_stamped (length : BitVec 32) :
    egress t regs { ipv4 := some ip, telemetry := some tel } cmd a length port = if cmd.isEgressNode then
        egressNode t regs { ipv4 := some ip, telemetry := some tel } cmd a length (onAllNodes t a port tel)
      else { regs, hdrs := { ipv4 := some ip, telemetry := some (onAllNodes t a port tel) } } := by
  simp [egress]

theorem egress_plain (t : Tables) (regs : Registers) (a : Passage) (port : BitVec 9)
    (hcmd : cmd.isIngressNode) (ip : Ipv4) (length : BitVec 32) :
    ∃ tel ip' hdrs, tel.epoch=cmd.currentEpoch ∧ tel.ingressPackets=cmd.iIngressPackets ∧
      tel.nextHeader=ip.protocol ∧ ip'.protocol=protocolTelemetry ∧
      ip'.srcAddr=ip.srcAddr ∧ ip'.dstAddr=ip.dstAddr ∧
      egress t regs { ipv4 := some ip } cmd a length port =
        if cmd.isEgressNode then egressNode t regs hdrs cmd a length tel
        else { regs, hdrs := { ipv4 := some ip', telemetry := some tel } } := by
  have hcreate : egress t regs { ipv4 := some ip } cmd a length port =
      egress t regs (createTelemetry a.junk cmd { ipv4 := some ip }) cmd a length port := by
    simp [egress,hcmd,createTelemetry]
  refine ⟨_,_,_,?_,?_,?_,?_,?_,?_,hcreate.trans (egress_stamped length)⟩ <;> rfl

theorem evaluated_egressNode (t : Tables) (regs : Registers) (a : Passage) (hdrs : Headers)
    (tel : Telemetry) (length : BitVec 32) (frame : Option Frame)
    (hflow : cmd.flowID=flowAt i) (hcmd : cmd.eReport=false) :
    Evaluated t i regs
      { regs := (egressNode t regs hdrs cmd a length tel).regs
        frame := frame
        received := (egressNode t regs hdrs cmd a length tel).received
        report := (egressNode t regs hdrs cmd a length tel).report }
      tel.epoch tel.ingressPackets (length-egressBytesThs cmd)
      { tel with e2eDelay := tel.e2eDelay+enDelay } where
  received := rfl
  epoch := rfl
  packets := rfl
  eCell := hflow ▸ eCell_updateRegisters t regs cmd a length _ hflow
  report := fun _ hr => report_egressNode t regs cmd a length tel hdrs hflow hcmd hr
variable {o : Outcome}
theorem Evaluated.of_eCell_eq {regs' : Registers} {e n bytes : BitVec 32} (h : Evaluated t i regs' o e n bytes tel)
    (hcell : regs'.eCell i=regs.eCell i) : Evaluated t i regs o e n bytes tel where
  __ := h
  eCell := hcell ▸ h.eCell
  report := hcell ▸ h.report

/-- At the ingress node a plain packet is counted.  Then it is lost, or it goes on with the counter
in its telemetry header, or this switch is also its egress node and evaluates it. -/
theorem pass_plain (hplain : Plain src dst f) (hhost : a.ingressPort≤2)
    (hroute : t.ipv4Lpm dst=.ipv4Forward port) (hport : port≠0)
    (hflow : flowIDApply t f.ipv4=flowAt i) (ho : pass t regs f a=o) :
    o.regs.iCell i=countStep (regs.iCell i) (epochOf a.ingressGlobalTimestamp) ∧
      (Silent i regs o ∧ o.frame=none ∨ ¬ port≤2 ∧ Silent i regs o ∧ (∃ g, o.frame=some g ∧
          Stamped src dst (epochOf a.ingressGlobalTimestamp) (o.regs.iCell i).2 f.length g) ∨
        port≤2 ∧ ∃ tel, Evaluated t i regs o (epochOf a.ingressGlobalTimestamp) (o.regs.iCell i).2 f.length tel) := by
  subst ho
  have hroute' : t.ipv4Lpm f.ipv4.dstAddr=.ipv4Forward port := by rw [hplain.dstAddr,hroute]
  obtain ⟨regs',cmd,hingress,hcount⟩ := ingress_plain hroute' hport hhost hflow regs f.length
  obtain ⟨tel,ip',hdrs,hepoch,hpackets,hnext,hproto,hsrc,hdst,hegress⟩ :=
    egress_plain t regs' a port hcount.isIngressNode { f.ipv4 with ttl := f.ipv4.ttl-1 } f.length
  unfold pass
  rw [hplain.parse_eq,hingress]
  by_cases hlost : port=dropPort ∨ a.lost ∨ port=0
  · rw [if_pos hlost]
    exact ⟨hcount.iCell,.inl ⟨⟨rfl,rfl,hcount.eCell⟩,rfl⟩⟩
  · rw [if_neg hlost,hegress,hcount.isEgressNode]
    by_cases hexit : port≤2
    · rw [if_pos (decide_eq_true hexit)]
      have heval : Evaluated t i regs' _ tel.epoch tel.ingressPackets (f.length-egressBytesThs cmd) _ :=
        evaluated_egressNode t regs' a hdrs tel f.length
          (some (deparse f (egressNode t regs' hdrs cmd a f.length tel).hdrs)) hcount.flowID
          hcount.eReport
      have hbytes : f.length-egressBytesThs cmd=f.length := by simp [egressBytesThs,hcount.isIngressNode]
      rw [hbytes,hepoch,hpackets,hcount.currentEpoch,hcount.packets] at heval
      refine ⟨hcount.iCell,.inr (.inr ⟨hexit,_,heval.of_eCell_eq hcount.eCell⟩)⟩
    · rw [if_neg (by simpa using hexit)]
      refine ⟨hcount.iCell,.inr (.inl ⟨hexit,⟨rfl,rfl,hcount.eCell⟩,_,rfl,?_⟩)⟩
      refine ⟨hplain.etherType,hproto,?_,hsrc.trans hplain.srcAddr,hdst.trans hplain.dstAddr,
        hepoch.trans hcount.currentEpoch,hpackets.trans hcount.packets,?_⟩
      · change tel.nextHeader≠protocolReport
        rw [hnext]
        exact hplain.notReport
      · rw [deparse,hplain.parse_eq]
        simp [Headers.telemetryBytes]
variable {e n len : BitVec 32} (hst : Stamped src dst e n len f) (hinner : ¬ a.ingressPort≤2)
  (hroute : t.ipv4Lpm dst=.ipv4Forward port)
include hst hinner hroute
/-- A switch that is neither the first nor the last on the path hands a stamped packet on, or loses
it, and keeps its registers. -/
theorem pass_transit (hport : ¬ port≤2) (ho : pass t regs f a=o) : o.regs=regs ∧ o.received=none ∧ o.report=none ∧
      ∀ g, o.frame=some g → Stamped src dst e n len g := by
  subst ho
  have hroute' : t.ipv4Lpm f.ipv4.dstAddr=.ipv4Forward port := by rw [hst.dstAddr,hroute]
  have hpos : port≠0 := by
    rintro rfl
    exact hport (by decide)
  have hcmd : classify t { f.ipv4 with ttl := f.ipv4.ttl-1 } a port={} := by
    rw [classify,if_neg (not_or.mpr ⟨hinner,hport⟩)]
  unfold pass
  rw [hst.parse_eq,ingress_stamped hroute' hpos,hcmd]
  by_cases hlost : port=dropPort ∨ a.lost ∨ port=0
  · rw [if_pos hlost]
    exact ⟨rfl,rfl,rfl,nofun⟩
  · rw [if_neg hlost,egress_stamped,if_neg (by simp)]
    refine ⟨rfl,rfl,rfl,?_⟩
    rintro g hg
    cases hg
    refine ⟨hst.etherType,hst.protocol,hst.nextHeader,hst.srcAddr,hst.dstAddr,hst.epoch,hst.packets,?_⟩
    rw [deparse,hst.parse_eq]
    exact (BitVec.add_sub_cancel ..).trans hst.length

theorem pass_exit (hport : port≠0) (hexit : port≤2) (hflow : flowIDApply t f.ipv4=flowAt i) (ho : pass t regs f a=o) :
    o.regs.iCell i=regs.iCell i ∧ (Silent i regs o ∨ ∃ tel, Evaluated t i regs o e n len tel) := by
  subst ho
  have hroute' : t.ipv4Lpm f.ipv4.dstAddr=.ipv4Forward port := by rw [hst.dstAddr,hroute]
  have hcmd : classify t { f.ipv4 with ttl := f.ipv4.ttl-1 } a port =
      { isEgressNode := true
        nodeID := t.nodeID
        flowID := flowAt i
        currentEpoch := epochOf a.ingressGlobalTimestamp } := by
    rw [classify,if_pos (.inr hexit),← hflow,decide_eq_true hexit,decide_eq_false hinner]
    rfl
  unfold pass
  rw [hst.parse_eq,ingress_stamped hroute' hport,hcmd]
  by_cases hlost : port=dropPort ∨ a.lost ∨ port=0
  · rw [if_pos hlost]
    exact ⟨rfl,.inl ⟨rfl,rfl,rfl⟩⟩
  · rw [if_neg hlost,egress_stamped,if_pos rfl]
    have hbytes : f.length-.ofNat 32 telemetryHs=len := by rw [hst.length,BitVec.add_sub_cancel]
    rw [← hst.epoch,← hst.packets,← hbytes]
    exact ⟨rfl,.inr ⟨_,evaluated_egressNode t regs a _ (onAllNodes t a port f.telemetry) f.length _ rfl rfl⟩⟩
end Packets
end P4Benchmarks.IntSight
