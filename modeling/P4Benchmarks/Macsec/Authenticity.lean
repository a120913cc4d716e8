import P4Benchmarks.Macsec.Pipeline
/-!
# P4-MACsec: what leaves on a data port

The verdict of `validate` is not used, so a frame leaves on a data port whether it is authentic or
not, if what remains of it without its SecTAGs is such a frame.
-/
namespace P4Benchmarks.Macsec
open Lib Option State Switch
def IsData (port : BitVec 9) : Prop := port≠controllerPort ∧ port≠dropPort
variable (T : Tables) (now : BitVec 48) (port : BitVec 9)
def SrcAccepted (srcAddr : BitVec 48) : Prop :=
  ∃ timestamp, T.macSrc srcAddr=some (.srcKnown port timestamp) ∧ ¬timestamp<now
namespace State
def Trusted (e : Ethernet) (s : State) : Prop :=
  s.userMetadata.fromController ∨ SrcAccepted T s.ingressGlobalTimestamp s.ingressPort e.srcAddr

def Sends (e : Ethernet) (s : State) : Prop :=
  s.Trusted T e ∧ ((s.hdr.cpuHeader.isSome ∧ s.ingressPort≠0) ∨
    (s.hdr.cpuHeader=none ∧ ∃ port, T.macDst e.dstAddr=some (.l2Forward port) ∧ IsData port ∧ port≠s.ingressPort))
section
variable (junk : Unspecified) {T : Tables} {e : Ethernet} {s : State}
theorem refreshSrc_accepted (h : s.Trusted T e) : ∃ m, s.refreshSrc junk T e={ s with userMetadata := m } ∧
      m.recirculate=s.userMetadata.recirculate := by
  rw [refreshSrc]
  by_cases hctrl : s.userMetadata.fromController
  · exact ⟨s.userMetadata,if_pos hctrl,rfl⟩
  · obtain ⟨timestamp,hentry,hfresh⟩ := h.resolve_left hctrl
    refine ⟨{ s.userMetadata with
      srcMacTablePort := s.ingressPort, srcMacTimeout := timestamp },?_,rfl⟩
    rw [if_neg hctrl,applyMacSrc,hentry]
    simp [isSome_some,if_neg hfresh,ne_eq,not_true_eq_false]

theorem refreshSrc_rejected (h : ¬s.Trusted T e) : (s.refreshSrc junk T e).egressSpec=controllerPort ∧
      (s.refreshSrc junk T e).hdr.cpuHeader.isSome := by
  rw [Trusted,not_or] at h
  rw [refreshSrc,if_neg h.1,applyMacSrc]
  match hentry : T.macSrc e.srcAddr with
  | none => exact ⟨rfl,rfl⟩
  | some .learnSrcMac =>
    simp only [isSome_some,if_pos]
    split_ifs <;> exact ⟨rfl,rfl⟩
  | some (.srcKnown port timestamp) =>
    simp only [isSome_some,if_pos]
    split_ifs with hold hport
    · exact ⟨rfl,rfl⟩
    · exact ⟨rfl,rfl⟩
    · refine absurd ⟨timestamp,?_,hold⟩ h.2
      rw [hentry,of_not_not hport]

theorem refreshSrc_keeps : (s.refreshSrc junk T e).ingressPort=s.ingressPort ∧
      (s.refreshSrc junk T e).userMetadata.recirculate=s.userMetadata.recirculate := by
  rw [refreshSrc,applyMacSrc]
  rcases T.macSrc e.srcAddr with _ | ⟨_⟩ | ⟨_⟩ <;> dsimp only <;> split_ifs <;> exact ⟨rfl,rfl⟩

theorem lookupDst_cpu (h : s.hdr.cpuHeader.isSome) : s.lookupDst junk T e=s := by
  rw [lookupDst,if_neg (by simp [← not_isSome,h])]

theorem lookupDst_l2Forward {port : BitVec 9} (hcpu : s.hdr.cpuHeader=none)
    (hentry : T.macDst e.dstAddr=some (.l2Forward port)) :
    s.lookupDst junk T e={ s with egressSpec := port } := by
  rw [lookupDst,hcpu,applyMacDst,hentry]
  rfl

theorem lookupDst_other (hcpu : s.hdr.cpuHeader=none) (hentry : ∀ port, T.macDst e.dstAddr≠some (.l2Forward port)) :
    ¬IsData (s.lookupDst junk T e).egressSpec := by
  rw [lookupDst,hcpu,applyMacDst]
  rcases hdst : T.macDst e.dstAddr with _ | ⟨port⟩ | _ | _
  · intro hdata
    simp only [isNone_none,if_pos,isSome_none,Bool.not_false,Bool.true_and] at hdata
    split_ifs at hdata
    · exact hdata.2 rfl
    · exact hdata.1 rfl
  · exact absurd hdst (hentry port)
  · exact fun hdata => hdata.1 rfl
  · exact fun hdata => hdata.2 rfl

theorem lookupDst_keeps : (s.lookupDst junk T e).ingressPort=s.ingressPort ∧
      (s.lookupDst junk T e).userMetadata.recirculate=s.userMetadata.recirculate := by
  rw [lookupDst,applyMacDst]
  rcases T.macDst e.dstAddr with _ | ⟨_⟩ | _ | _ <;> dsimp only <;> split_ifs <;> exact ⟨rfl,rfl⟩

theorem dropReflected_isData :
    IsData s.dropReflected.egressSpec ↔ IsData s.egressSpec ∧ s.egressSpec≠s.ingressPort := by
  unfold dropReflected
  by_cases hdrop : s.egressSpec=dropPort
  · have hself : { s with egressSpec := dropPort }=s := by rw [← hdrop]
    simp only [if_pos hdrop,drop,hself]
    split_ifs <;> exact iff_of_false (fun h => h.2 hdrop) fun h => h.1.2 hdrop
  · simp only [if_neg hdrop]
    split_ifs with hsame
    · exact iff_of_false (fun h => h.2 rfl) fun h => h.2 hsame.2
    · exact ⟨fun h => ⟨h,fun heq => hsame ⟨h.1,heq⟩⟩,fun h => h.1⟩

theorem dropReflected_recirculate : s.dropReflected.userMetadata.recirculate=s.userMetadata.recirculate := by
  unfold dropReflected
  split_ifs <;> dsimp only <;> split_ifs <;> rfl

theorem switchFrame_isData (hzero : s.egressSpec=0) : IsData (s.switchFrame junk T e).egressSpec ↔ s.Sends T e := by
  rw [switchFrame,dropReflected_isData,(lookupDst_keeps junk).1,(refreshSrc_keeps junk).1]
  by_cases haccepted : s.Trusted T e
  · obtain ⟨m,hm,-⟩ := refreshSrc_accepted junk haccepted
    generalize hs' : ({ s with userMetadata := m } : State)=s' at hm
    have hhdr : s'.hdr=s.hdr := by rw [← hs']
    rw [hm,Sends,and_iff_right haccepted]
    cases hcpu : s.hdr.cpuHeader with
    | some c =>
      have hspec : s'.egressSpec=0 := by rw [← hs',hzero]
      have hdata : IsData 0 := ⟨by decide,by decide⟩
      rw [lookupDst_cpu junk (by rw [hhdr,hcpu]; rfl),hspec,and_iff_right hdata,ne_comm]
      simp
    | none =>
      have hcpu' : s'.hdr.cpuHeader=none := by rw [hhdr,hcpu]
      by_cases hentry : ∃ port, T.macDst e.dstAddr=some (.l2Forward port)
      · obtain ⟨port,hport⟩ := hentry
        rw [lookupDst_l2Forward junk hcpu' hport]
        simp [hport]
      · have hother : ∀ port, T.macDst e.dstAddr≠some (.l2Forward port) := fun port hport => hentry ⟨port,hport⟩
        refine iff_of_false (fun h => lookupDst_other junk hcpu' hother h.1) ?_
        rintro (h | ⟨-,port,hport,-⟩)
        · exact absurd h.1 (by simp)
        · exact hother port hport
  · obtain ⟨hport,hcpu⟩ := refreshSrc_rejected junk haccepted
    rw [lookupDst_cpu junk hcpu,hport]
    exact iff_of_false (fun h => h.1.1 rfl) fun h => haccepted h.1

theorem switchFrame_recirculate : (s.switchFrame junk T e).userMetadata.recirculate=s.userMetadata.recirculate := by
  rw [switchFrame,dropReflected_recirculate,(lookupDst_keeps junk).2,(refreshSrc_keeps junk).2]
end
end State
namespace Headers
def reason (h : Headers) : Option (BitVec 16) := h.cpuHeader.map (·.reason)
def Tagged (h : Headers) : Prop := h.reason≠some packetOutOnPort ∧ h.ethernet.isSome ∧ h.sectag.isSome
instance (h : Headers) : Decidable h.Tagged := inferInstanceAs (Decidable (_ ∧ _ ∧ _))

def keptCpuHeader (h : Headers) : Option CpuHeader := if h.reason=some fullProcess then none else h.cpuHeader

theorem parse_ipv4 {frame : List Byte} (h : (parse frame).sectag.isSome) : (parse frame).ipv4=none := by
  have hethernet (h : Headers) (hipv4 : h.ipv4=none) (hsectag : h.sectag=none)
      (htag : h.parseEthernet.sectag.isSome) : h.parseEthernet.ipv4=none := by
    unfold parseEthernet at htag ⊢
    dsimp only at htag ⊢
    split_ifs at htag ⊢ <;> simp_all
  unfold parse at h ⊢
  split_ifs at h ⊢
  · rfl
  · exact hethernet _ rfl rfl h
  · exact hethernet _ rfl rfl h
end Headers

def ForController (e : Ethernet) : Prop := e.etherType=typeLldp ∨ e.etherType=typeBddp ∨ e.etherType=typeArp

/-- When a frame without a SecTAG leaves on a data port: as a packet of the controller; on port 0 if
it is too short or keeps a CPU header; or on the port of its destination address. -/
def Escapes (h : Headers) : Prop :=
  if h.reason=some packetOutOnPort then ∃ c, h.cpuHeader=some c ∧ IsData (c.port.setWidth 9)
  else
    match h.ethernet with
    | none => True
    | some e =>
      ¬ForController e ∧ (h.reason=some fullProcess ∨ SrcAccepted T now port e.srcAddr) ∧
          ((h.keptCpuHeader.isSome ∧ port≠0) ∨ (h.keptCpuHeader=none ∧ ∃ q, T.macDst e.dstAddr=some (.l2Forward q) ∧
              IsData q ∧ q≠port))
namespace State
theorem markFromController_eq (s : State) : s.markFromController =
      { s with
        hdr.cpuHeader := s.hdr.keptCpuHeader
        userMetadata.fromController := decide (s.hdr.reason=some fullProcess) } := by
  unfold markFromController Headers.keptCpuHeader
  change (if s.hdr.reason=some fullProcess then _ else _)=_
  split_ifs with h
  · simp [h,decide_true]
  · simp [h,decide_false]

theorem ingress_packetOut {E : Environment} {junk : Unspecified} {T : Tables} {s : State}
    {c : CpuHeader} (hcpu : s.hdr.cpuHeader=some c) (hreason : c.reason=packetOutOnPort) :
    s.ingress E junk T=some (s.markFromController.packetOut c) := by
  have hother : s.hdr.reason≠some fullProcess := by
    simp only [Headers.reason,hcpu,map_some,hreason]
    decide
  have hkept : s.markFromController.hdr.cpuHeader=some c := by
    rw [markFromController_eq]
    rw [Headers.keptCpuHeader,if_neg hother,hcpu]
  simp [ingress,hkept,if_pos hreason]

theorem ingress_receive {E : Environment} {junk : Unspecified} {T : Tables} {s : State}
    (hreason : s.hdr.reason≠some packetOutOnPort) : s.ingress E junk T=s.markFromController.receive E junk T := by
  unfold ingress
  dsimp only
  split
  · next c hc =>
    have hne : c.reason≠packetOutOnPort := by
      intro hout
      rw [markFromController_eq] at hc
      rw [Headers.keptCpuHeader] at hc
      split_ifs at hc
      exact hreason (by rw [Headers.reason,hc,map_some,hout])
    rw [if_neg hne]
  · rfl
end State

theorem State.switchPlain_isData (junk : Unspecified) (T : Tables) {s : State} (hzero : s.egressSpec=0) :
    IsData (s.switchPlain junk T).egressSpec ↔
      match s.hdr.ethernet with
      | none => True
      | some e => ¬ForController e ∧ s.Sends T e := by
  unfold switchPlain
  cases s.hdr.ethernet with
  | none =>
    rw [hzero]
    exact iff_of_true ⟨by decide,by decide⟩ trivial
  | some e =>
    dsimp only
    split_ifs with hlldp harp
    · exact iff_of_false (fun h => h.1 rfl) fun h => h.1 (or_assoc.mp (Or.inl hlldp))
    · exact iff_of_false (fun h => h.1 rfl) fun h => h.1 (Or.inr (Or.inr harp))
    · have hother : ¬ForController e := fun h => (or_assoc.mpr h).elim hlldp harp
      rw [switchFrame_isData junk hzero,and_iff_right hother]

theorem State.switchPlain_recirculate (junk : Unspecified) (T : Tables) (s : State) :
    (s.switchPlain junk T).userMetadata.recirculate=s.userMetadata.recirculate := by
  unfold switchPlain
  split
  · rfl
  · split_ifs
    · rfl
    · rfl
    · exact switchFrame_recirculate junk
section
variable (W : Switch) (port : BitVec 9) {m : UserMetadata} {frame : List Byte}
theorem egress_recirculated (E : Environment) (junk : Unspecified) (T : Tables)
    (pns : Register 64 32) (egressPort : BitVec 9) (s : State) :
    (s.egress E junk T pns egressPort).recirculated=s.userMetadata.recirculate := by
  unfold egress
  cases s.userMetadata.recirculate with
  | true => rfl
  | false =>
    simp only [Bool.false_eq_true,if_false]
    split
    · split_ifs <;> rfl
    · rfl

theorem depart_plain {s : State} (hrecirculate : s.userMetadata.recirculate=false) :
    (s.egressSpec=dropPort ∧ W.depart s=.dropped) ∨
      (s.egressSpec≠dropPort ∧ ∃ out, W.depart s=.sent s.egressSpec out) := by
  unfold depart
  by_cases hdrop : s.egressSpec=dropPort
  · exact Or.inl ⟨hdrop,if_pos hdrop⟩
  · refine Or.inr ⟨hdrop,(s.egress W.environment W.junk W.tables W.outgoingPacketNumbers
      s.egressSpec).state.hdr.deparse W.updateChecksum,?_⟩
    simp [if_neg hdrop,egress_recirculated,hrecirculate,Bool.false_eq_true]

theorem ingress_plain (hm : m.recirculate=false) (hplain : ¬(Headers.parse frame).Tagged) :
    ∃ s, (W.arrive port m frame).ingress W.environment W.junk W.tables=some s ∧ s.userMetadata.recirculate=false ∧
      (IsData s.egressSpec ↔ Escapes W.tables W.timestamp port (.parse frame)) := by
  have hhdr : (W.arrive port m frame).hdr=.parse frame := rfl
  generalize hs : W.arrive port m frame=s at hhdr
  by_cases hreason : (Headers.parse frame).reason=some packetOutOnPort
  · obtain ⟨c,hc,hout⟩ := map_eq_some_iff.mp hreason
    refine ⟨_,State.ingress_packetOut (hhdr ▸ hc) hout,?_,?_⟩
    · rw [State.markFromController_eq,← hs]
      exact hm
    · rw [Escapes,if_pos hreason]
      refine ⟨fun h => ⟨c,hc,h⟩,?_⟩
      rintro ⟨c',hc',h⟩
      cases hc.symm.trans hc'
      exact h
  · refine ⟨s.markFromController.switchPlain W.junk W.tables,?_,?_⟩
    · rw [State.ingress_receive (hhdr ▸ hreason),State.markFromController_eq,hhdr]
      have huntagged : ¬((Headers.parse frame).ethernet.isSome ∧
          (Headers.parse frame).sectag.isSome) := fun h => hplain ⟨hreason,h⟩
      unfold receive
      split
      · next he ht => exact absurd ⟨by rw [he]; rfl,by rw [ht]; rfl⟩ huntagged
      · rfl
    · rw [switchPlain_recirculate,State.markFromController_eq,← hs]
      refine ⟨hm,?_⟩
      rw [Escapes,if_neg hreason,switchPlain_isData _ _ rfl]
      simp only [State.Sends,State.Trusted,hs,hhdr,decide_eq_true_eq]
      subst hs
      rfl
end

def Tables.sak (sak : BitVec 128) : BitVec 128 :=
  match T.validateTbl port with
  | some (.validatePacket key) => key
  | _ => sak
variable (E : Environment) (T : Tables) (port : BitVec 9)
def validated (h : Headers) : Option (Bool × BitVec 16 × List Byte) :=
  match h.ethernet, h.sectag with
  | some e, some t =>
    if h.reason=some packetOutOnPort then none
    else validate E ⟨T.sak port 0,t.sci,t.pn,e.srcAddr,e.dstAddr,t.bits⟩ h.payload
  | _, _ => none

def verdict (frame : List Byte) : Option Bool := (validated E T port (.parse frame)).map (·.1)

def strip (frame : List Byte) : Option (List Byte) :=
  let h := Headers.parse frame
  match h.ethernet with
  | some e =>
    (validated E T port h).map fun r =>
      (h.keptCpuHeader.map (·.bytes)).getD []++({ e with etherType := r.2.1 } : Ethernet).bytes ++ r.2.2
  | none => none

def Ready (m : UserMetadata) : Prop := m.recirculate=false ∧ T.sak port m.sak=T.sak port 0

section
variable (W : Switch) {port : BitVec 9} {m : UserMetadata} {frame : List Byte}
theorem applyValidateTbl_sak {T : Tables} {action : ValidateAction}
    (hentry : T.validateTbl port=some action) (s : State) :
    s.applyValidateTbl action={ s with userMetadata.sak := T.sak port s.userMetadata.sak } := by
  unfold applyValidateTbl Tables.sak
  rw [hentry]
  cases action <;> rfl

theorem sak_sak (port : BitVec 9) (sak : BitVec 128) : T.sak port (T.sak port sak)=T.sak port sak := by
  unfold Tables.sak
  rcases T.validateTbl port with _ | _ | ⟨_⟩ <;> rfl

theorem depart_decapsulate {s : State} (hspec : s.egressSpec=0) (hipv4 : s.hdr.ipv4=none)
    (e : Ethernet) (r : Bool × BitVec 16 × List Byte) :
    W.depart (s.decapsulate e r) = .recirculated { s.userMetadata with recirculate := false, recirculated := true }
        ((s.hdr.cpuHeader.map (·.bytes)).getD [] ++ ({ e with etherType := r.2.1 } : Ethernet).bytes++r.2.2) := by
  have hport : (s.decapsulate e r).egressSpec≠dropPort := by
    change s.egressSpec≠dropPort
    rw [hspec]
    decide
  rw [depart,if_neg hport]
  simp [egress,decapsulate,Headers.deparse,hipv4]

theorem pass_tagged (hentry : (W.tables.validateTbl port).isSome)
    (hready : Ready W.tables port m) (htagged : (Headers.parse frame).Tagged) :
    ∃ m', Ready W.tables port m' ∧ W.pass port m frame =
        (strip W.environment W.tables port frame).map (Outcome.recirculated m') := by
  obtain ⟨hreason,he,ht⟩ := htagged
  have hipv4 := Headers.parse_ipv4 ht
  obtain ⟨e,he⟩ := isSome_iff_exists.mp he
  obtain ⟨t,ht⟩ := isSome_iff_exists.mp ht
  obtain ⟨action,hentry⟩ := isSome_iff_exists.mp hentry
  -- the state after the first statement and the lookup of the key
  let s : State :=
    { hdr := { Headers.parse frame with
        cpuHeader := (Headers.parse frame).keptCpuHeader, ethernet := some e, sectag := some t }
      userMetadata := { m with
        fromController := decide ((Headers.parse frame).reason=some fullProcess)
        sak := W.tables.sak port 0 }
      ingressPort := port
      egressSpec := 0
      ingressGlobalTimestamp := W.timestamp }
  have hcall : (W.arrive port m frame).ingress W.environment W.junk W.tables =
      (validated W.environment W.tables port (.parse frame)).map (s.decapsulate e) := by
    rw [State.ingress_receive (show (W.arrive port m frame).hdr.reason≠_ from hreason),State.markFromController_eq]
    simp only [receive,arrive,he,ht,hentry,validated,if_neg hreason,
      applyValidateTbl_sak hentry,validateParameters,hready.2]
    rfl
  refine ⟨{ s.userMetadata with recirculate := false, recirculated := true },⟨rfl,?_⟩,?_⟩
  · exact sak_sak W.tables port 0
  · rw [Switch.pass,hcall,map_map,strip,he,map_map]
    congr 1
    funext r
    exact depart_decapsulate W rfl hipv4 e r
end

def Switch.inPass (W : Switch) (now : Nat → BitVec 48) (pns : Nat → Register 64 32) (k : Nat) : Switch :=
  { W with timestamp := now k, outgoingPacketNumbers := pns k }

inductive Leaves (W : Switch) (now : Nat → BitVec 48) (pns : Nat → Register 64 32)
    (port : BitVec 9) : Nat → UserMetadata → List Byte → BitVec 9 → Prop
  | sent {k : Nat} {m : UserMetadata} {frame out : List Byte} {q : BitVec 9} :
      (W.inPass now pns k).pass port m frame=some
      (.sent q out) → Leaves W now pns port k m frame q
  | again {k : Nat} {m m' : UserMetadata} {frame frame' : List Byte} {q : BitVec 9} :
      (W.inPass now pns k).pass port m frame=some (.recirculated m' frame') →
      Leaves W now pns port (k+1) m' frame' q → Leaves W now pns port k m frame q

inductive Innermost (E : Environment) (T : Tables) (port : BitVec 9) : Nat → List Byte → Nat → List Byte → Prop
  | plain {k : Nat} {frame : List Byte} :
      ¬(Headers.parse frame).Tagged → Innermost E T port k frame k frame
  | tagged {k l : Nat} {frame frame' inner : List Byte} :
      strip E T port frame=some frame' → Innermost E T port (k+1) frame' l inner →
      Innermost E T port k frame l inner
section
variable (W : Switch) (now : Nat → BitVec 48) (pns : Nat → Register 64 32) {port : BitVec 9}
theorem tagged_of_strip {E : Environment} {T : Tables} {frame frame' : List Byte}
    (h : strip E T port frame=some frame') : (Headers.parse frame).Tagged := by
  unfold strip validated at h
  dsimp only at h
  split at h
  · next e he =>
    rw [he] at h
    cases ht : (Headers.parse frame).sectag with
    | none => simp [ht] at h
    | some t =>
      simp only [ht] at h
      split_ifs at h with hreason
      · cases h
      · exact ⟨hreason,by rw [he]; rfl,by rw [ht]; rfl⟩
  · cases h

theorem pass_plain {m : UserMetadata} {frame : List Byte} (hm : m.recirculate=false)
    (hplain : ¬(Headers.parse frame).Tagged) :
    (∀ m' frame', W.pass port m frame≠some (.recirculated m' frame')) ∧
      ((∃ q out, W.pass port m frame=some (.sent q out) ∧ q≠controllerPort) ↔
        Escapes W.tables W.timestamp port (.parse frame)) := by
  obtain ⟨s,hs,hrecirculate,hdata⟩ := ingress_plain W port hm hplain
  rw [Switch.pass,hs,map_some,← hdata]
  rcases depart_plain W hrecirculate with ⟨hdrop,hout⟩ | ⟨hsent,out,hout⟩
  · rw [hout]
    refine ⟨fun m' frame' h => (nomatch h),?_⟩
    refine iff_of_false ?_ fun h => h.2 hdrop
    rintro ⟨q,out,h,-⟩
    cases h
  · rw [hout]
    refine ⟨fun m' frame' h => (nomatch h),?_,fun h => ⟨_,out,rfl,h.1⟩⟩
    rintro ⟨q,out',h,hq⟩
    cases h
    exact ⟨hq,hsent⟩

theorem leaves_iff (hentry : (W.tables.validateTbl port).isSome) {k : Nat} {m : UserMetadata} {frame : List Byte}
    (hready : Ready W.tables port m) :
    (∃ q, Leaves W now pns port k m frame q ∧ q≠controllerPort) ↔ ∃ l inner,
    Innermost W.environment W.tables port k frame l inner ∧ Escapes W.tables (now l) port (.parse inner) := by
  constructor
  · rintro ⟨q,hleaves,hq⟩
    induction hleaves with
    | @sent k m frame out q hpass =>
      by_cases htagged : (Headers.parse frame).Tagged
      · obtain ⟨m',-,hpass'⟩ := pass_tagged (W.inPass now pns k) hentry hready htagged
        rw [hpass'] at hpass
        obtain ⟨frame',-,hcontra⟩ := map_eq_some_iff.mp hpass
        cases hcontra
      · have hescapes := (pass_plain (W.inPass now pns k) hready.1 htagged).2.mp
          ⟨q,out,hpass,hq⟩
        exact ⟨k,frame,.plain htagged,hescapes⟩
    | @again k m m' frame frame' q hpass _ ih =>
      by_cases htagged : (Headers.parse frame).Tagged
      · obtain ⟨m'',hready',hpass'⟩ := pass_tagged (W.inPass now pns k) hentry hready htagged
        rw [hpass'] at hpass
        obtain ⟨f,hstrip,heq⟩ := map_eq_some_iff.mp hpass
        cases heq
        obtain ⟨l,inner,hinner,hescapes⟩ := ih hready' hq
        exact ⟨l,inner,.tagged hstrip hinner,hescapes⟩
      · exact absurd hpass ((pass_plain (W.inPass now pns k) hready.1 htagged).1 m' frame')
  · rintro ⟨l,inner,hinner,hescapes⟩
    induction hinner generalizing m with
    | @plain k frame hplain =>
      obtain ⟨q,out,hpass,hq⟩ := (pass_plain (W.inPass now pns k) hready.1 hplain).2.mpr hescapes
      exact ⟨q,.sent hpass,hq⟩
    | @tagged k l frame frame' inner hstrip _ ih =>
      obtain ⟨m',hready',hpass⟩ := pass_tagged (W.inPass now pns k) hentry hready (tagged_of_strip hstrip)
      obtain ⟨q,hleaves,hq⟩ := ih hready' hescapes
      refine ⟨q,.again (hpass.trans ?_) hleaves,hq⟩
      exact congrArg (Option.map _) hstrip

/-- Only authenticated frames leave on a data port exactly if the frame is authentic, or what remains
of it without its SecTAGs is not a frame that leaves on a data port. -/
theorem authentic_iff (hentry : (W.tables.validateTbl port).isSome) (frame : List Byte) :
    (∀ q, Leaves W now pns port 0 .initial frame q → q≠controllerPort →
        verdict W.environment W.tables port frame=some true) ↔
      verdict W.environment W.tables port frame=some true ∨
        ∀ l inner, Innermost W.environment W.tables port 0 frame l inner →
          ¬Escapes W.tables (now l) port (.parse inner) := by
  have hready : Ready W.tables port .initial := ⟨rfl,rfl⟩
  have hleaves : (∃ q, Leaves W now pns port 0 .initial frame q ∧ q≠controllerPort) ↔ _ :=
    leaves_iff W now pns hentry hready
  by_cases hverdict : verdict W.environment W.tables port frame=some true
  · exact iff_of_true (fun _ _ _ => hverdict) (Or.inl hverdict)
  · constructor
    · intro h
      refine Or.inr fun l inner hinner hescapes => ?_
      obtain ⟨q,hq,hdata⟩ := hleaves.mpr ⟨l,inner,hinner,hescapes⟩
      exact hverdict (h q hq hdata)
    · rintro (h | h) q hq hdata
      · exact h
      · obtain ⟨l,inner,hinner,hescapes⟩ := hleaves.mp ⟨q,hq,hdata⟩
        exact absurd hescapes (h l inner hinner)
end

private def constantVerdict (accepts : Bool) : Environment := identityCipher accepts

private def learnedSwitch (accepts : Bool) : Switch where
  environment := constantVerdict accepts
  junk := fun _ => 0
  updateChecksum := id
  tables :=
    { macSrc := fun _ => some (.srcKnown 3 100)
      macDst := fun _ => some (.l2Forward 4)
      validateTbl := fun _ => some (.validatePacket 5)
      protectTbl := fun _ => none }
  timestamp := 0
  outgoingPacketNumbers := .filled 0

private def taggedFrame : List Byte :=
  [0,0,0,0,0,2,0,0,0,0,0,1,0x88,0xe5]++List.replicate 14 0 ++ [0x86,0xdd,1,2,3,4,5,6]++List.replicate 16 9

private def innerFrame : List Byte := [0,0,0,0,0,2,0,0,0,0,0,1,0x86,0xdd,1,2,3,4,5,6]

theorem authentic_frame_forwarded : ((learnedSwitch true).tables.validateTbl 3).isSome ∧
    ∀ q, Leaves (learnedSwitch true) (fun _ => 0) (fun _ => .filled 0) 3 0 .initial taggedFrame q → q≠controllerPort →
      verdict (constantVerdict true) (learnedSwitch true).tables 3 taggedFrame=some true :=
  ⟨rfl,(authentic_iff (learnedSwitch true) (fun _ => 0) (fun _ => .filled 0) rfl taggedFrame).mpr
    (Or.inl (by decide +kernel))⟩

/-- The frame leaves on port 4 although its integrity check failed. -/
theorem forged_frame_forwarded :
    ¬∀ q, Leaves (learnedSwitch false) (fun _ => 0) (fun _ => .filled 0) 3 0 .initial taggedFrame q → q≠controllerPort →
      verdict (constantVerdict false) (learnedSwitch false).tables 3 taggedFrame=some true := by
  intro h
  have hstrip : strip (constantVerdict false) (learnedSwitch false).tables 3 taggedFrame = some innerFrame := by
    decide +kernel
  have hplain : ¬(Headers.parse innerFrame).Tagged := by decide +kernel
  have hcpu : (Headers.parse innerFrame).keptCpuHeader=none := by decide +kernel
  have hescapes : Escapes (learnedSwitch false).tables 0 3 (.parse innerFrame) := by
    refine ⟨?_,Or.inr ⟨100,rfl,by decide⟩,Or.inr ⟨hcpu,4,rfl,⟨by decide,by decide⟩,by decide⟩⟩
    rintro (h | h | h) <;> exact absurd h (by decide)
  have hready : Ready (learnedSwitch false).tables 3 .initial := ⟨rfl,rfl⟩
  obtain ⟨q,hleaves,hq⟩ := (leaves_iff (learnedSwitch false) (fun _ => 0) (fun _ => .filled 0)
    rfl hready).mpr ⟨1,innerFrame,.tagged hstrip (.plain hplain),hescapes⟩
  exact absurd (h q hleaves hq) (by decide +kernel)
end P4Benchmarks.Macsec
