import P4Benchmarks.LossRadar.Meters
/-! # When the meters agree -/
namespace P4Benchmarks.LossRadar
open List Tables State
namespace Link
variable {L : Link} {S : Set (BitVec 32)} (sw : Tables)
theorem metered_dstAddr (p : Packet) : (sw.metered p).dstAddr=p.dstAddr := by
  unfold metered hop
  split <;> split <;> rfl

theorem safe_of_sends {a : Arrival} {p : Packet}
    (hsafe : L.up.route a.packet.dstAddr=L.upPort.val → L.Safe a.packet.dstAddr)
    (hsends : L.sends a=some p) : L.Safe p.dstAddr ∧ L.Plain p := by
  rw [L.sends_eq] at hsends
  split at hsends
  · rename_i hroute
    have hok := hsafe hroute.1
    have hdst := metered_dstAddr L.up a.packet
    rw [afterIngress_eq] at hsends
    by_cases hfc : (L.up.metered a.packet).protocol=lossradarProtocol
    · have hkept : L.up.removeHdr L.upPort.val (stamp (L.up.metered a.packet)
          a.ingressTimestamp).protocol=false := by
        rw [← hok.keeps]
        exact congrArg _ hfc
      rw [if_pos hfc,hkept] at hsends
      cases hsends
      exact ⟨by rw [← hdst] at hok; exact hok,.inl hfc⟩
    · have hkept : L.up.removeHdr L.upPort.val (L.up.metered a.packet).protocol=false := by
        by_contra hrem
        exact hfc (L.up.removeHdr_lossradar _ _ (by simpa using hrem))
      rw [if_neg hfc,hkept] at hsends
      cases hsends
      -- upstream added no header, so downstream adds none
      have hadd : L.up.addHdr a.packet.protocol=false := by
        by_contra hadd
        refine hfc ?_
        rw [metered,if_pos (by simpa using hadd)]
        rfl
      have hmetered : L.up.metered a.packet=L.up.hop a.packet := by
        rw [metered,hadd]
        rfl
      refine ⟨by rw [← hdst] at hok; exact hok,.inr ?_⟩
      change L.down.addHdr (L.up.metered a.packet).protocol=false
      rw [hmetered,hop_protocol]
      by_contra hdown
      rw [hok.adds _ (by simpa using hdown)] at hadd
      exact absurd hadd (by decide)
  · cases hsends

theorem metersAgree_of_safe (hsafe : ∀ dst ∈ S, L.up.route dst=L.upPort.val → L.Safe dst) (hash : Hashes) :
    L.MetersAgree S hash := by
  intro up down lost hS hperm batch o ho
  have hup := Lib.foldl_eq_add_sum (fun s : State => s.um (slot L.upPort batch o))
    (fun a ha s => L.um_ingress hash batch ho (hsafe _ (hS a ha)) s) cleared
  have hreceived (a : Arrival) (ha : a ∈ down) (hport : a.ingressPort=L.downPort) :
      L.Safe a.packet.dstAddr ∧ L.Plain a.packet := by
    have hmem : a.packet ∈ L.received down := mem_filterMap.mpr ⟨a,ha,if_pos hport⟩
    obtain ⟨b,hb,hsends⟩ := mem_filterMap.mp (hperm.mem_iff.mpr (mem_append_left lost hmem))
    exact safe_of_sends (hsafe _ (hS b hb)) hsends
  have hdown := Lib.foldl_eq_add_sum (fun s : State => s.dm (slot L.downPort batch o))
    (fun a ha s => L.dm_ingress hash batch ho (hreceived a ha) s) cleared
  rw [← Lib.sum_map_filterMap] at hup hdown
  rw [packetMeter_eq_sum,← Lib.sum_sub_sum_of_perm (share hash batch o) hperm]
  unfold meters
  rw [hup,hdown]
  simp only [cleared,zero_add]
  rfl

/-! ### Unsafe links

A single packet shows each way in which a link can be unsafe. -/

private def zeroHash : Hashes := fun _ _ => 0
private theorem cells_zeroHash (k : Key) : (cells zeroHash k).count 0=1 := rfl
variable (dst : BitVec 32)
private def probe : Arrival where
  packet := ⟨0,0,64,lossradarProtocol,0,dst,some ⟨0,0,1⟩,none⟩
  ingressPort := 0
  ingressTimestamp := 0
  parsed := ⟨iff_of_true rfl rfl,iff_of_false Bool.false_ne_true (by simp [Packet.hdr])⟩

private theorem metered_probe : (sw.metered (probe dst).packet).protocol=lossradarProtocol := by
  have hadd : sw.addHdr (probe dst).packet.protocol=false := sw.addHdr_lossradar
  rw [metered,hadd]
  exact sw.hop_protocol _

private theorem share_stamp (p : Packet) : share zeroHash 0 0 (stamp p 0)=p.entry 0 p.ttl := by
  change (if thisBatch 0=0 then (cells zeroHash _).count 0 • _ else 0)=_
  rw [if_pos (by decide),cells_zeroHash,one_nsmul]
  rfl

private theorem um_probe {dst : BitVec 32} (hup : L.up.route dst=L.upPort.val) :
    (meters zeroHash L.up [probe dst]).um (slot L.upPort 0 0) =
      (L.up.metered (probe dst).packet).entry 0 (L.up.metered (probe dst).packet).ttl := by
  have hum := L.um_ingress_routed zeroHash 0 (o := 0) (by decide) (metered_probe L.up dst) hup cleared
  rw [← share_stamp]
  exact hum.trans (zero_add _)
section
variable {dst : BitVec 32} (hagree : L.MetersAgree S zeroHash) (hdst : dst ∈ S) (hup : L.up.route dst=L.upPort.val)
include hagree hdst hup
private theorem passes_of_metersAgree : L.up.sendFrame L.upPort.val := by
  by_contra hdrop
  have hsent : L.sent [probe dst]=[] := by
    have hsends : L.sends (probe dst)=none := by rw [L.sends_eq,if_neg fun h => hdrop h.2]
    simp [sent,hsends]
  have heq := hagree [probe dst] [] [] (forall_mem_singleton.mpr hdst) (by simp [hsent,received]) 0 0 (by decide)
  rw [um_probe hup] at heq
  exact absurd (congrArg Cell.pktCnt heq) (by change ¬ (1#16-0=0); decide)

private theorem keeps_of_metersAgree (hpass : L.up.sendFrame L.upPort.val) :
    L.up.removeHdr L.upPort.val lossradarProtocol=false := by
  by_contra hrem
  have hprot : (afterIngress L.up (probe dst)).protocol=lossradarProtocol := by
    rw [afterIngress_eq,if_pos (metered_probe L.up dst)]
    exact metered_probe L.up dst
  have hsent : L.sent [probe dst]=[removeLossradarHdr (afterIngress L.up (probe dst))] := by
    have hsends : L.sends (probe dst) = some (removeLossradarHdr (afterIngress L.up (probe dst))) := by
      rw [L.sends_eq,if_pos ⟨hup,hpass⟩,hprot,if_pos (by simpa using hrem)]
    simp [sent,hsends]
  -- the packet is lost, but on the link it had no header to be metered by
  have heq := hagree [probe dst] [] [removeLossradarHdr (afterIngress L.up (probe dst))]
    (forall_mem_singleton.mpr hdst) (by simp [hsent,received]) 0 0 (by decide)
  rw [um_probe hup] at heq
  exact absurd (congrArg Cell.pktCnt heq) (by change ¬ (1#16-0=0); decide)

private theorem decrements_of_metersAgree (hpass : L.up.sendFrame L.upPort.val)
    (hkeep : L.up.removeHdr L.upPort.val lossradarProtocol=false) :
    ∃ nhop port, L.down.ipv4Lpm dst=.setNhop nhop port := by
  by_contra hlpm
  have hprot := metered_probe L.up dst
  have hafter : afterIngress L.up (probe dst)=stamp (L.up.metered (probe dst).packet) 0 := by
    rw [afterIngress_eq,if_pos hprot]
    rfl
  have hsent : L.sent [probe dst]=[afterIngress L.up (probe dst)] := by
    have hsends : L.sends (probe dst)=some (afterIngress L.up (probe dst)) := by
      have hkept : L.up.removeHdr L.upPort.val (afterIngress L.up (probe dst)).protocol=false := by
        rw [hafter,← hkeep]
        exact congrArg _ hprot
      rw [L.sends_eq,if_pos ⟨hup,hpass⟩,hkept]
      rfl
    simp [sent,hsends]
  -- it arrives, and downstream does not touch its TTL
  let arrival : Arrival := ⟨afterIngress L.up (probe dst),L.downPort,0,afterIngress_parsed L.up (probe dst)⟩
  have hsame : L.down.metered arrival.packet=stamp (L.up.metered (probe dst).packet) 0 := by
    have hdown : arrival.packet.dstAddr=dst := by
      change (afterIngress L.up (probe dst)).dstAddr=dst
      rw [hafter]
      exact metered_dstAddr L.up _
    have hadd : L.down.addHdr arrival.packet.protocol=false := by
      change L.down.addHdr (afterIngress L.up (probe dst)).protocol=false
      rw [hafter,← L.down.addHdr_lossradar]
      exact congrArg _ hprot
    rw [← hafter,metered,hadd,hop,hdown]
    cases haction : L.down.ipv4Lpm dst with
    | setNhop nhop port => exact absurd ⟨nhop,port,haction⟩ hlpm
    | drop | noAction => rfl
  have heq := hagree [probe dst] [arrival] [] (forall_mem_singleton.mpr hdst)
    (by simp [hsent,received,receives,arrival]) 0 0 (by decide)
  have hdm := dm_ingress_metered L.down zeroHash L.downPort 0 (o := 0) (by decide) (a := arrival)
    (by rw [hsame]; exact hprot) cleared
  rw [hsame,if_pos ⟨rfl,rfl⟩,cells_zeroHash,one_nsmul] at hdm
  change _-(cleared.ingress zeroHash L.down arrival).dm (slot L.downPort 0 0)=_ at heq
  rw [um_probe hup,hdm] at heq
  have httl : (L.up.metered (probe dst).packet).ttl ^^^
      (0#8^^^((L.up.metered (probe dst).packet).ttl+1))=0#8 := congrArg Cell.xorTtl heq
  rw [BitVec.zero_xor] at httl
  exact absurd (BitVec.xor_eq_zero_iff.mp httl) (by bv_omega)
end

private def bare (protocol : BitVec 8) (hne : protocol≠lossradarProtocol) : Arrival where
  packet := ⟨0,0,64,protocol,0,dst,none,if protocol=6 then some ⟨0,0⟩ else none⟩
  ingressPort := 0
  ingressTimestamp := 0
  parsed := ⟨iff_of_false Bool.false_ne_true hne,by
    rw [if_neg hne]
    by_cases h : protocol=6 <;> simp [h]⟩

private theorem adds_of_metersAgree (hagree : L.MetersAgree S zeroHash) {dst : BitVec 32} (hdst : dst ∈ S)
    (hup : L.up.route dst=L.upPort.val) (hpass : L.up.sendFrame L.upPort.val) {protocol : BitVec 8}
    (hdown : L.down.addHdr protocol) : L.up.addHdr protocol := by
  by_contra hnot
  have hne : protocol≠lossradarProtocol := by
    rintro rfl
    rw [L.down.addHdr_lossradar] at hdown
    exact absurd hdown (by decide)
  let a := bare dst protocol hne
  have hmetered : L.up.metered a.packet=L.up.hop a.packet := by
    rw [metered,if_neg (show ¬ L.up.addHdr a.packet.protocol from hnot)]
  have hprot : (L.up.metered a.packet).protocol=protocol := by
    rw [hmetered,hop_protocol]
    rfl
  have hfc : (L.up.metered a.packet).protocol≠lossradarProtocol := by rwa [hprot]
  have hafter : afterIngress L.up a=L.up.metered a.packet := by rw [afterIngress_eq,if_neg hfc]
  have hsent : L.sent [a]=[afterIngress L.up a] := by
    have hsends : L.sends a=some (afterIngress L.up a) := by
      have hkept : ¬ L.up.removeHdr L.upPort.val (afterIngress L.up a).protocol := by
        rw [hafter]
        exact fun hrem => hfc (L.up.removeHdr_lossradar _ _ hrem)
      rw [L.sends_eq,if_pos ⟨hup,hpass⟩,if_neg hkept]
    simp [sent,hsends]
  -- upstream does not meter the packet, downstream does
  have hum : (cleared.ingress zeroHash L.up a).um=cleared.um := by
    unfold ingress
    dsimp only
    rw [routed_packet,if_neg fun h => hfc h.1]
  let arrival : Arrival := ⟨afterIngress L.up a,L.downPort,0,afterIngress_parsed L.up a⟩
  have hadded : L.down.metered arrival.packet = Phv.addLossradarHdr (L.down.hop (L.up.metered a.packet)) := by
    change L.down.metered (afterIngress L.up a)=_
    rw [hafter,metered,hprot,if_pos hdown]
  have hbatch : (Phv.addLossradarHdr (L.down.hop (L.up.metered a.packet))).hdr.batchID=0 := by
    change (L.down.hop (L.up.metered a.packet)).hdr.batchID=0
    rw [Packet.hdr,hop_lossradarHdr,hmetered,hop_lossradarHdr]
    rfl
  have heq := hagree [a] [arrival] [] (forall_mem_singleton.mpr hdst)
    (by simp [hsent,received,receives,arrival]) 0 0 (by decide)
  have hdm := dm_ingress_metered L.down zeroHash L.downPort 0 (o := 0) (by decide) (a := arrival)
    (by rw [hadded]; rfl) cleared
  rw [hadded,if_pos ⟨rfl,hbatch⟩,cells_zeroHash,one_nsmul] at hdm
  change (cleared.ingress zeroHash L.up a).um _ -
    (cleared.ingress zeroHash L.down arrival).dm (slot L.downPort 0 0)=_ at heq
  rw [hum,hdm] at heq
  exact absurd (congrArg Cell.pktCnt heq) (by change ¬ (0#16-(0+1)=0); decide)

/-- The meters of a link agree, for all hash functions and all traffic to `S`, exactly if what the
two switches do with the packets of the link is safe. -/
theorem metersAgree_iff (L : Link) (S : Set (BitVec 32)) : (∀ hash, L.MetersAgree S hash) ↔
      ∀ dst ∈ S, L.up.route dst=L.upPort.val → L.Safe dst := by
  constructor
  · intro hagree dst hdst hup
    have hpass := passes_of_metersAgree (hagree zeroHash) hdst hup
    have hkeep := keeps_of_metersAgree (hagree zeroHash) hdst hup hpass
    exact ⟨hpass,hkeep,fun _ => adds_of_metersAgree (hagree zeroHash) hdst hup hpass,
      decrements_of_metersAgree (hagree zeroHash) hdst hup hpass hkeep⟩
  · exact metersAgree_of_safe

def unroutedLink : Link where
  up := ⟨fun _ => .setNhop 0x0A00040A 3,fun _ => true,fun _ => true,fun protocol => protocol==6,
    fun _ _ => false,by decide,fun _ _ h => absurd h (by decide)⟩
  down := ⟨fun _ => .drop,fun _ => true,fun _ => true,fun protocol => protocol==6,
    fun _ _ => false,by decide,fun _ _ h => absurd h (by decide)⟩
  upPort := 3
  downPort := 3

/-- A packet that `ipv4_lpm` drops downstream does not cancel. -/
theorem unroutedLink_disagrees : ¬ ∀ hash, unroutedLink.MetersAgree Set.univ hash := by
  intro hagree
  obtain ⟨nhop,port,hlpm⟩ := decrements_of_metersAgree (hagree zeroHash)
    (show (0x0A00040A : BitVec 32) ∈ Set.univ from trivial) rfl rfl rfl
  cases hlpm
end Link
end P4Benchmarks.LossRadar
