import P4Benchmarks.LossRadar.Switch
/-! # Meters at the two ends of a link -/
namespace P4Benchmarks.LossRadar
open BitVec Phv State
namespace Tables
variable (sw : Tables)
def route (dst : BitVec 32) : Nat :=
  match sw.ipv4Lpm dst with
  | .setNhop nhop port => if sw.forward nhop then port.val else dropPort
  | .drop => dropPort
  | .noAction => if sw.forward 0 then 0 else dropPort
variable (p : Packet)
def hop : Packet :=
  match sw.ipv4Lpm p.dstAddr with
  | .setNhop _ _ => { p with ttl := p.ttl-1 }
  | _ => p

def metered : Packet := if sw.addHdr p.protocol then addLossradarHdr (sw.hop p) else sw.hop p

@[simp] theorem hop_protocol : (sw.hop p).protocol=p.protocol := by
  unfold hop
  split <;> rfl

@[simp] theorem hop_lossradarHdr : (sw.hop p).lossradarHdr=p.lossradarHdr := by
  unfold hop
  split <;> rfl
end Tables
variable (sw : Tables)
theorem routed_packet (p : Packet) : (routed sw p).packet=sw.metered p := by
  have hforward (v : Phv) : (forward sw v).packet=v.packet := by
    unfold forward
    split <;> rfl
  have hlpm : (ipv4Lpm sw ⟨p,0,0,false⟩).packet=sw.hop p := by
    unfold ipv4Lpm Tables.hop
    cases sw.ipv4Lpm p.dstAddr <;> rfl
  unfold routed addHdr Tables.metered
  rw [hforward,hlpm,Tables.hop_protocol]
  split
  · rfl
  · rw [hforward,hlpm]

theorem routed_egressSpec (p : Packet) : (routed sw p).egressSpec=sw.route p.dstAddr ∧
      ((routed sw p).drop ↔ sw.route p.dstAddr=dropPort) := by
  have hadd (v : Phv) : (addHdr sw v).egressSpec=v.egressSpec ∧ (addHdr sw v).drop=v.drop := by
    unfold addHdr
    split <;> exact ⟨rfl,rfl⟩
  have hforward (v : Phv) (hv : v.drop ↔ v.egressSpec=dropPort) :
      (forward sw v).egressSpec=(if sw.forward v.nhopIpv4 then v.egressSpec else dropPort) ∧
        ((forward sw v).drop ↔ (forward sw v).egressSpec=dropPort) := by
    unfold forward
    split
    · exact ⟨rfl,hv⟩
    · exact ⟨rfl,iff_of_true rfl rfl⟩
  have hlpm : ((ipv4Lpm sw ⟨p,0,0,false⟩).drop ↔ (ipv4Lpm sw ⟨p,0,0,false⟩).egressSpec=dropPort) ∧
      (if sw.forward (ipv4Lpm sw ⟨p,0,0,false⟩).nhopIpv4 then
        (ipv4Lpm sw ⟨p,0,0,false⟩).egressSpec else dropPort)=sw.route p.dstAddr := by
    unfold ipv4Lpm Tables.route
    cases sw.ipv4Lpm p.dstAddr with
    | setNhop nhop port =>
      have hport : port.val≠dropPort := by
        unfold dropPort
        omega
      exact ⟨iff_of_false Bool.false_ne_true hport,rfl⟩
    | drop => exact ⟨iff_of_true rfl rfl,ite_self _⟩
    | noAction => exact ⟨iff_of_false Bool.false_ne_true (show 0≠dropPort by decide),rfl⟩
  obtain ⟨hspec,hdrop⟩ := hforward _ hlpm.1
  unfold routed
  rw [(hadd _).1,(hadd _).2,hdrop,hspec,hlpm.2]
  exact ⟨rfl,Iff.rfl⟩

structure Link where
  (up down : Tables)
  (upPort downPort : Port)
variable (L : Link) (a : Arrival)
def Link.sends : Option Packet := (emit L.up a).bind fun out => if out.1=L.upPort.val then some out.2 else none
variable (arrivals : List Arrival)
def Link.sent : List Packet := arrivals.filterMap L.sends
def Link.receives : Option Packet := if a.ingressPort=L.downPort then some a.packet else none
def Link.received : List Packet := arrivals.filterMap L.receives
variable (hash : Hashes)
def meters (sw : Tables) (arrivals : List Arrival) : State := arrivals.foldl (ingress hash sw) .cleared
def slot (port : Port) (batch : BitVec 1) (o : Nat) : BitVec 8 := .ofNat 8 (32*port.val+128*batch.toNat+o)
def cells (k : Key) : List Nat := [hash 0 k%8,8+hash 1 k%8,16+hash 2 k%8]
variable (batch : BitVec 1) (m : Nat → Cell)
def insertPacket (p : Packet) : Nat → Cell :=
  match p.lossradarHdr with
  | some h =>
    if h.batchID=batch then Lib.bump m (cells hash (p.key h.timestamp p.ttl)) (p.entry h.timestamp p.ttl)
    else m
  | none => m
variable (packets : List Packet)
def packetMeter : Nat → Cell := packets.foldl (insertPacket hash batch) fun _ => 0

/-- Whatever arrives upstream (with a destination in `S`), and whatever part of what is sent on the
link is lost: the difference of the two meters is the meter of the lost packets. -/
def Link.MetersAgree (S : Set (BitVec 32)) (hash : Hashes) : Prop :=
  ∀ (up down : List Arrival) (lost : List Packet), (∀ a ∈ up, a.packet.dstAddr ∈ S) →
    (L.sent up).Perm (L.received down++lost) → ∀ batch, ∀ o<32, (meters hash L.up up).um (slot L.upPort batch o) -
        (meters hash L.down down).dm (slot L.downPort batch o)=packetMeter hash batch lost o

structure Link.Safe (L : Link) (dst : BitVec 32) : Prop where
  /-- What the upstream meter counts is not dropped in the egress pipeline. -/
  passes : L.up.sendFrame L.upPort
  /-- The link carries the header. -/
  keeps : L.up.removeHdr L.upPort lossradarProtocol=false
  /-- The downstream switch does not put a header on what upstream sent without. -/
  adds : ∀ protocol, L.down.addHdr protocol → L.up.addHdr protocol
  /-- The downstream switch finds a next hop, and so decrements the TTL. -/
  decrements : ∃ nhop port, L.down.ipv4Lpm dst=.setNhop nhop port

def share (o : Nat) (p : Packet) : Cell :=
  match p.lossradarHdr with
  | some h =>
    if h.batchID=batch then (cells hash (p.key h.timestamp p.ttl)).count o • p.entry h.timestamp p.ttl
    else 0
  | none => 0

theorem insertPacket_apply (p : Packet) (o : Nat) : insertPacket hash batch m p o=m o+share hash batch o p := by
  unfold insertPacket share
  cases p.lossradarHdr with
  | none => simp
  | some h =>
    dsimp only
    split
    · exact Lib.bump_apply _ _ _ _
    · simp

theorem packetMeter_eq_sum (o : Nat) : packetMeter hash batch packets o=(packets.map (share hash batch o)).sum := by
  have hsum := Lib.foldl_eq_add_sum (fun m : Nat → Cell => m o)
    (fun p (_ : p ∈ packets) m => insertPacket_apply hash batch m p o) fun _ => 0
  rw [packetMeter,hsum,zero_add]

theorem meterIdx_eq_slot {port : Nat} {port' : Port} {batch batch' : BitVec 1} {i : Fin 3} {h o : Nat} (hport : port<4)
    (ho : o<32) :
    meterIdx port batch.toNat i h=slot port' batch' o ↔ (port=port'.val ∧ batch=batch') ∧ 8*i.val+h%8=o := by
  unfold meterIdx slot
  rw [← toNat_inj,← toNat_inj,toNat_ofNat,toNat_ofNat]
  omega
variable {o : Nat}
theorem count_meterIdxs {hash : Hashes} {port : Nat} {port' : Port} {batch batch' : BitVec 1}
    {k : Key} (hport : port<4) (ho : o<32) :
    (meterIdxs hash port batch.toNat k).count (slot port' batch' o) =
      if port=port'.val ∧ batch=batch' then (cells hash k).count o else 0 := by
  unfold meterIdxs cells
  by_cases hslice : port=port'.val ∧ batch=batch'
  · obtain ⟨rfl,rfl⟩ := hslice
    simp [List.count_cons,meterIdx_eq_slot hport ho]
  · simp [meterIdx_eq_slot hport ho,hslice]

theorem Tables.route_lt {sw : Tables} {dst : BitVec 32} (h : sw.route dst≠dropPort) : sw.route dst<4 := by
  revert h
  unfold route
  split
  · split
    · exact fun _ => Fin.isLt _
    · exact fun h => absurd rfl h
  · exact fun h => absurd rfl h
  · split
    · exact fun _ => by decide
    · exact fun h => absurd rfl h

theorem batchTimestamp_eq (ts : BitVec 48) : batchTimestamp ts=ts.setWidth 13 := by
  apply eq_of_toNat_eq
  exact Nat.mod_mod _ _

theorem Tables.metered_parsed {p : Packet} (hp : p.Parsed) : (sw.metered p).Parsed := by
  have hhop : (sw.hop p).Parsed := by
    unfold hop
    split
    · exact ⟨hp.lossradar,hp.tcp⟩
    · exact hp
  unfold metered
  split
  · rename_i hadd
    have hne : p.protocol≠lossradarProtocol := by
      intro heq
      rw [heq,sw.addHdr_lossradar] at hadd
      exact absurd hadd (by decide)
    have htcp := hhop.tcp
    rw [hop_protocol,if_neg hne] at htcp
    have hfc : (addLossradarHdr (sw.hop p)).protocol=lossradarProtocol := rfl
    refine ⟨iff_of_true rfl hfc,?_⟩
    change (sw.hop p).tcp.isSome ↔ (sw.hop p).protocol=6
    rw [hop_protocol]
    exact htcp
  · exact hhop

theorem afterIngress_eq : afterIngress sw a = if (sw.metered a.packet).protocol=lossradarProtocol then
      stamp (sw.metered a.packet) a.ingressTimestamp else sw.metered a.packet := by
  unfold afterIngress
  rw [routed_packet]

theorem afterIngress_parsed : (afterIngress sw a).Parsed := by
  have hp := sw.metered_parsed a.parsed
  rw [afterIngress_eq]
  split
  · rename_i hfc
    exact ⟨iff_of_true rfl hfc,hp.tcp⟩
  · exact hp
variable (L : Link)
theorem Link.sends_eq (a : Arrival) : L.sends a =
    if L.up.route a.packet.dstAddr=L.upPort.val ∧ L.up.sendFrame L.upPort.val then
      some (if L.up.removeHdr L.upPort.val (afterIngress L.up a).protocol then
        removeLossradarHdr (afterIngress L.up a) else afterIngress L.up a)
    else none := by
  have hne : L.upPort.val≠dropPort := by
    unfold dropPort
    omega
  unfold Link.sends emit
  rw [(routed_egressSpec L.up a.packet).1]
  by_cases hroute : L.up.route a.packet.dstAddr=L.upPort.val
  · rw [hroute]
    cases hpass : L.up.sendFrame L.upPort.val with
    | false => simp [hpass]
    | true =>
      cases hrem : L.up.removeHdr L.upPort.val (afterIngress L.up a).protocol <;> simp [hne,hpass,hrem]
  · simp only [hroute,false_and,if_false]
    split
    · rfl
    · split <;> simp [hroute]
variable {a : Arrival} (hash : Hashes) (batch : BitVec 1)
theorem Link.um_ingress_routed (ho : o<32) (hfc : (L.up.metered a.packet).protocol=lossradarProtocol)
    (hup : L.up.route a.packet.dstAddr=L.upPort.val) (s : State) :
    (s.ingress hash L.up a).um (slot L.upPort batch o)=s.um (slot L.upPort batch o) +
      share hash batch o (stamp (L.up.metered a.packet) a.ingressTimestamp) := by
  obtain ⟨hspec,hdropped⟩ := routed_egressSpec L.up a.packet
  have hlt := L.upPort.isLt
  have hdrop : (routed L.up a.packet).drop=false := by
    rw [← Bool.not_eq_true,hdropped,hup,dropPort]
    omega
  unfold ingress
  dsimp only
  rw [routed_packet,if_pos ⟨hfc,hdrop⟩,lossRadarUm,Lib.bump_apply,hspec,hup,
    count_meterIdxs hlt ho,routed_packet,batchTimestamp_eq]
  simp only [true_and,ite_smul,zero_nsmul]
  rfl

theorem Link.um_ingress (ho : o<32) (hsafe : L.up.route a.packet.dstAddr=L.upPort.val → L.Safe a.packet.dstAddr)
    (s : State) :
    (s.ingress hash L.up a).um (slot L.upPort batch o) =
      s.um (slot L.upPort batch o)+(L.sends a).elim 0 (share hash batch o) := by
  have hparsed := L.up.metered_parsed a.parsed
  obtain ⟨hspec,hdropped⟩ := routed_egressSpec L.up a.packet
  by_cases hfc : (L.up.metered a.packet).protocol=lossradarProtocol
  · by_cases hup : L.up.route a.packet.dstAddr=L.upPort.val
    · have hok := hsafe hup
      have hkept : L.up.removeHdr L.upPort.val (stamp (L.up.metered a.packet) a.ingressTimestamp).protocol=false := by
        rw [← hok.keeps]
        exact congrArg _ hfc
      rw [L.um_ingress_routed hash batch ho hfc hup,L.sends_eq,afterIngress_eq,if_pos hfc,if_pos ⟨hup,hok.passes⟩,hkept]
      rfl
    · -- the packet is dropped, or counted for another port
      rw [L.sends_eq,if_neg fun h => hup h.1]
      unfold ingress
      dsimp only
      rw [routed_packet]
      by_cases hdrop : (routed L.up a.packet).drop=false
      · have hport := Tables.route_lt (mt hdropped.mpr (by simp [hdrop]))
        rw [if_pos ⟨hfc,hdrop⟩,lossRadarUm,Lib.bump_apply,hspec,count_meterIdxs hport ho,
          if_neg fun h => hup h.1,zero_nsmul]
        rfl
      · rw [if_neg fun h => hdrop h.2]
        exact (add_zero _).symm
  · have hnone : (L.up.metered a.packet).lossradarHdr=none := by simpa using mt hparsed.lossradar.mp hfc
    have hkept : L.up.removeHdr L.upPort.val (L.up.metered a.packet).protocol=false := by
      by_contra hrem
      exact hfc (L.up.removeHdr_lossradar _ _ (by simpa using hrem))
    rw [L.sends_eq,afterIngress_eq,if_neg hfc,hkept]
    unfold ingress
    dsimp only
    rw [routed_packet,if_neg fun h => hfc h.1]
    split <;> simp [share,hnone]

def Link.Plain (p : Packet) : Prop := p.protocol=lossradarProtocol ∨ L.down.addHdr p.protocol=false

theorem dm_ingress_metered (port : Port) (batch : BitVec 1)
    (ho : o<32) (hfc : (sw.metered a.packet).protocol=lossradarProtocol)
    (s : State) :
    (s.ingress hash sw a).dm (slot port batch o)=s.dm (slot port batch o) +
      if a.ingressPort.val=port.val ∧ (sw.metered a.packet).hdr.batchID=batch then
        (cells hash ((sw.metered a.packet).key (sw.metered a.packet).hdr.timestamp
          ((sw.metered a.packet).ttl+1))).count o •
        (sw.metered a.packet).entry (sw.metered a.packet).hdr.timestamp ((sw.metered a.packet).ttl+1)
      else 0 := by
  unfold ingress
  dsimp only
  rw [routed_packet,if_pos hfc,lossRadarDm,Lib.bump_apply,count_meterIdxs a.ingressPort.isLt ho,
    originalTtl,routed_packet,ite_smul,zero_nsmul]

theorem Link.dm_ingress (ho : o<32) (hsafe : a.ingressPort=L.downPort → L.Safe a.packet.dstAddr ∧ L.Plain a.packet)
    (s : State) :
    (s.ingress hash L.down a).dm (slot L.downPort batch o) =
      s.dm (slot L.downPort batch o)+(L.receives a).elim 0 (share hash batch o) := by
  unfold Link.receives
  by_cases hfc : (L.down.metered a.packet).protocol=lossradarProtocol
  · rw [dm_ingress_metered L.down hash L.downPort batch ho hfc]
    congr 1
    by_cases hport : a.ingressPort=L.downPort
    · obtain ⟨hok,hplain⟩ := hsafe hport
      have hadd : L.down.addHdr a.packet.protocol=false := by
        rcases hplain with hlr | hadd
        · rw [hlr]
          exact L.down.addHdr_lossradar
        · exact hadd
      have hmetered : L.down.metered a.packet={ a.packet with ttl := a.packet.ttl-1 } := by
        obtain ⟨nhop,port,hlpm⟩ := hok.decrements
        unfold Tables.metered Tables.hop
        rw [hadd,hlpm]
        rfl
      rw [hmetered] at hfc ⊢
      obtain ⟨h,hhdr⟩ := Option.isSome_iff_exists.mp (a.parsed.lossradar.mpr hfc)
      have hget : Packet.hdr { a.packet with ttl := a.packet.ttl-1 }=h := by simp [Packet.hdr,hhdr]
      have httl : a.packet.ttl-1+1=a.packet.ttl := BitVec.sub_add_cancel _ _
      rw [if_pos hport,Option.elim_some,share,hhdr,hget,hport]
      simp only [httl,true_and]
      rfl
    · have hne : a.ingressPort.val≠L.downPort.val := fun h => hport (Fin.ext h)
      simp [hport,hne]
  · have hne : a.packet.protocol≠lossradarProtocol := by
      intro heq
      refine hfc ?_
      unfold Tables.metered
      rw [heq,L.down.addHdr_lossradar]
      exact (L.down.hop_protocol a.packet).trans heq
    have hnone : a.packet.lossradarHdr=none := by simpa using mt a.parsed.lossradar.mp hne
    unfold ingress
    dsimp only
    rw [routed_packet,if_neg hfc]
    split <;> simp [share,hnone]
end P4Benchmarks.LossRadar
