import P4Benchmarks.Ipsec.Ingress
/-!
# P4-IPsec: what leaves the switch

The forwarding table is applied after the security associations and sets the egress port in every
case, also of packets that were meant for the controller or to be dropped.
-/
namespace P4Benchmarks.Ipsec
open Lib List
variable (T : Tables) (dstAddr : BitVec 32)
def Tables.forwardPort : BitVec 9 :=
  match T.forward dstAddr with
  | some (.l3Forward port) => port
  | some (.l2Forward _ port) => port
  | some .drop => dropPort
  | none => dropPort

def Tables.Encrypts : Prop :=
  match T.sadEncrypt dstAddr with
  | some (.espEncryptAesCtr _ _ _) => True
  | some (.espEncryptNull _) => True
  | some .sadbAcquire => False
  | none => False

def innerDst (P : Primitives) (key data : List Byte) : BitVec 32 := fieldAt 32 (decrypted P key data) 16 4
namespace State
variable (s : State)
theorem applyForward_egressSpec : (s.applyForward T).egressSpec=T.forwardPort s.ipv4.dstAddr := by
  unfold applyForward Tables.forwardPort
  rcases hentry : T.forward s.ipv4.dstAddr with _ | ⟨_⟩ | ⟨_⟩ | _ <;> rfl

theorem applyForward_espValid : (s.applyForward T).espValid=s.espValid := by
  unfold applyForward
  split <;> rfl

theorem applyForward_limits : (s.applyForward T).doDrop=s.doDrop ∧ (s.applyForward T).notifySoft=s.notifySoft ∧
      (s.applyForward T).notifyHard=s.notifyHard := by
  unfold applyForward
  split <;> exact ⟨rfl,rfl,rfl⟩
variable {T : Tables} {s : State}
theorem applyLimits_applyForward (hdrop : s.doDrop=false) (hsoft : s.notifySoft=false) (hhard : s.notifyHard=false) :
    (s.applyForward T).applyLimits=s.applyForward T := by
  obtain ⟨h₁,h₂,h₃⟩ := applyForward_limits T s
  rw [applyLimits,h₁,h₂,h₃,hdrop,hsoft,hhard]
  rfl

theorem applyLimits_espValid (s : State) : s.applyLimits.espValid=s.espValid := by
  unfold applyLimits
  split_ifs <;> rfl
section
variable (P : Primitives) (junk : Unspecified) (iv : List Byte)
include P junk iv
theorem applySadEncrypt_espValid (h : T.Encrypts s.ipv4.dstAddr) : (s.applySadEncrypt P junk iv T).espValid := by
  unfold Tables.Encrypts at h
  unfold applySadEncrypt
  cases hentry : T.sadEncrypt s.ipv4.dstAddr with
  | none =>
    rw [hentry] at h
    exact h.elim
  | some action =>
    rw [hentry] at h
    cases action with
    | espEncryptAesCtr key keyHmac sa | espEncryptNull sa => rfl
    | sadbAcquire => exact h.elim

theorem applySadEncrypt_acquire (h : ¬T.Encrypts s.ipv4.dstAddr) : s.applySadEncrypt P junk iv T=s.sadbAcquire := by
  unfold Tables.Encrypts at h
  unfold applySadEncrypt
  cases hentry : T.sadEncrypt s.ipv4.dstAddr with
  | none => rfl
  | some action =>
    rw [hentry] at h
    cases action with
    | espEncryptAesCtr key keyHmac sa | espEncryptNull sa => exact absurd trivial h
    | sadbAcquire => rfl

theorem ingress_protect (hipv4 : s.ipv4Valid) (hesp : s.espValid=false)
    (hspd : T.spd s.ipv4.dstAddr s.ipv4.protocol=some (.addSpdMark 2)) :
    s.ingress P junk iv T=some (((({ s.start with spdMark := 2 } : State).applySadEncrypt
      P junk iv T).applyForward T).applyLimits) := by
  have hmark : s.start.applySpd T={ s.start with spdMark := 2 } := by
    have hentry : T.spd s.start.ipv4.dstAddr s.start.ipv4.protocol=some (.addSpdMark 2) := hspd
    rw [applySpd,hentry]
  have hesp' : ¬s.start.espValid := by
    change ¬s.espValid
    simp [hesp]
  have hother : (2 : BitVec 4)≠1 := by decide
  rw [ingress,process,if_neg hesp',if_pos (show s.start.ipv4Valid from hipv4),hmark]
  simp [Option.map_some]
end

def Leaves (r : State) : Prop := r.egressSpec≠controllerPort ∧ r.egressSpec≠dropPort

/-- A packet that is to be protected leaves on a data port only with an ESP header from an
association, exactly if there is an association or the forwarding table sends the plain packet
nowhere else. -/
theorem protect_iff (P : Primitives) (junk : Unspecified) (iv : List Byte) {T : Tables} {s : State}
    (hipv4 : s.ipv4Valid) (hesp : s.espValid=false) (hspd : T.spd s.ipv4.dstAddr s.ipv4.protocol=some (.addSpdMark 2)) :
    (∀ r, s.ingress P junk iv T=some r → r.Leaves → r.espValid ∧ T.Encrypts s.ipv4.dstAddr) ↔
    T.Encrypts s.ipv4.dstAddr ∨ T.forwardPort s.ipv4.dstAddr=controllerPort ∨
    T.forwardPort s.ipv4.dstAddr=dropPort := by
  rw [ingress_protect P junk iv hipv4 hesp hspd]
  generalize hs' : ({ s.start with spdMark := 2 } : State)=s'
  have hdst : s'.ipv4.dstAddr=s.ipv4.dstAddr := by
    rw [← hs']
    rfl
  by_cases hsa : T.Encrypts s.ipv4.dstAddr
  · refine iff_of_true ?_ (Or.inl hsa)
    rintro r hr -
    cases hr
    refine ⟨?_,hsa⟩
    rw [applyLimits_espValid,applyForward_espValid]
    exact applySadEncrypt_espValid P junk iv (hdst ▸ hsa)
  · have hplain : ((s'.applySadEncrypt P junk iv T).applyForward T).applyLimits =
        s'.sadbAcquire.applyForward T := by
      rw [applySadEncrypt_acquire P junk iv (hdst ▸ hsa)]
      subst hs'
      exact applyLimits_applyForward rfl rfl rfl
    have hport : (s'.sadbAcquire.applyForward T).egressSpec=T.forwardPort s.ipv4.dstAddr := by
      rw [applyForward_egressSpec,← hdst]
      rfl
    rw [hplain]
    constructor
    · intro h
      refine Or.inr (Classical.byContradiction fun hdata => ?_)
      rw [not_or] at hdata
      have hleaves : (s'.sadbAcquire.applyForward T).Leaves := by
        rw [Leaves,hport]
        exact hdata
      exact hsa (h _ rfl hleaves).2
    · rintro (h | h) r hr hleaves
      · exact absurd h hsa
      · cases hr
        rw [Leaves,hport] at hleaves
        exact (h.elim hleaves.1 hleaves.2).elim

private def plainIpv4 : Ipv4 := ⟨4,5,0,40,1,0,0,64,17,0,0x0a000101,0x0a000202⟩
private def zeroPrimitives : Primitives := ⟨fun _ _ => [],fun _ _ => replicate 16 0⟩

private def plainPacket : State where
  cpuHeaderValid := false
  cpuHeader := ⟨0,0,0,0⟩
  ethernet := ⟨2,1,0x800⟩
  ipv4Valid := true
  ipv4 := plainIpv4
  espValid := false
  esp := ⟨0,0⟩
  payload := replicate 20 7
  egressSpec := 0
  mcastGrp := 0
  ingressGlobalTimestamp := 0
  spdMark := 0
  counters := .filled 0
  notifySoft := false
  notifyHard := false
  doDrop := false

private def protectTables (sa : Option EncryptAction) : Tables where
  spd := fun _ _ => some (.addSpdMark 2)
  sadEncrypt := fun _ => sa
  sadDecrypt := fun _ _ _ => some (.espDecryptAesCtr [1] [2] 0)
  forward := fun _ => some (.l3Forward 2)

theorem protected_with_association : plainPacket.ipv4Valid ∧ plainPacket.espValid=false ∧
    ∀ r, plainPacket.ingress zeroPrimitives (fun _ => 0) (replicate 8 0)
        (protectTables (some (.espEncryptNull ⟨1,0,0,0,10,20⟩)))=some r → r.Leaves →
      r.espValid ∧ (protectTables (some (.espEncryptNull ⟨1,0,0,0,10,20⟩))).Encrypts 0x0a000202 :=
  ⟨rfl,rfl,(protect_iff zeroPrimitives (fun _ => 0) (replicate 8 0)
    (T := protectTables (some (.espEncryptNull ⟨1,0,0,0,10,20⟩))) (s := plainPacket)
    rfl rfl rfl).mpr (Or.inl trivial)⟩

/-- Without an association the plain packet leaves on port 2. -/
theorem plain_packet_leaves : ¬∀ r, plainPacket.ingress zeroPrimitives (fun _ => 0) (replicate 8 0)
        (protectTables none)=some r → r.Leaves →
      r.espValid ∧ (protectTables none).Encrypts 0x0a000202 := by
  intro h
  exact (h _ rfl ⟨by decide,by decide⟩).2

theorem decryptAesCtr_dstAddr {P : Primitives} {key keyHmac : List Byte} {esp : Esp} {data : List Byte}
    {r : Ipv4 × Bool × List Byte} (h : decryptAesCtr P key keyHmac esp data=some r) :
    Decryptable P key data ∧ r.1.dstAddr=innerDst P key data := by
  rw [decryptAesCtr] at h
  split_ifs at h with hdata
  cases h
  refine ⟨hdata,?_⟩
  have hsize : 20≤(payloadSize (decrypted P key data)).toNat := by
    have hle := hdata.2.1
    omega
  have hslice (n : Nat) (hn : 20≤n) (l : List Byte) : ((l.take n).drop 16).take 4=(l.drop 16).take 4 := by
    rw [drop_take,take_take,Nat.min_eq_left (by omega)]
  exact congrArg (fun bytes => BitVec.ofNat 32 (ofBe bytes)) (hslice _ hsize _)

theorem ingress_decrypt (P : Primitives) (junk : Unspecified) (iv : List Byte)
    {key keyHmac : List Byte} {i : BitVec 32} (hesp : s.espValid)
    (hsa : T.sadDecrypt s.ipv4.srcAddr s.ipv4.dstAddr s.esp.spi = some (.espDecryptAesCtr key keyHmac i)) :
    (s.ingress P junk iv T).map (·.egressSpec) =
      if Decryptable P key s.payload then some (T.forwardPort (innerDst P key s.payload))
      else none := by
  have hentry : T.sadDecrypt s.start.ipv4.srcAddr s.start.ipv4.dstAddr s.start.esp.spi =
      some (.espDecryptAesCtr key keyHmac i) := hsa
  have happly : s.start.applySadDecrypt P junk T = s.start.espDecryptAesCtr P junk key keyHmac i := by
    rw [applySadDecrypt,hentry]
  rw [ingress,process,if_pos (show s.start.espValid from hesp),happly,espDecryptAesCtr]
  change Option.map _ (Option.map _ (Option.map _ (Option.map _ (decryptAesCtr P key keyHmac s.esp s.payload))))=_
  cases hr : decryptAesCtr P key keyHmac s.esp s.payload with
  | none =>
    rw [decryptAesCtr] at hr
    split_ifs at hr with hdata
    rw [if_neg hdata]
    rfl
  | some r =>
    obtain ⟨hdata,hdst⟩ := decryptAesCtr_dstAddr hr
    rw [if_pos hdata,← hdst]
    have hlimits : (((s.start.decapsulate junk i r).applyForward T).applyLimits).egressSpec =
        T.forwardPort r.1.dstAddr := by
      rw [applyLimits_applyForward,applyForward_egressSpec]
      · rfl
      all_goals rw [decapsulate]; cases r.2.1 <;> rfl
    exact congrArg some hlimits

/-- A packet with a wrong integrity value leaves the ingress with the drop port exactly if its data
can be decrypted and the forwarding table drops the destination that the decrypted header names. -/
theorem authenticated_iff (P : Primitives) (junk : Unspecified) (iv : List Byte) {T : Tables}
    {s : State} {key keyHmac : List Byte} {i : BitVec 32} (hesp : s.espValid)
    (hsa : T.sadDecrypt s.ipv4.srcAddr s.ipv4.dstAddr s.esp.spi = some (.espDecryptAesCtr key keyHmac i)) :
    ((computedHmac P keyHmac s.esp s.payload).take 12 ≠ receivedIcv s.payload →
        ∃ r, s.ingress P junk iv T = some r ∧ r.egressSpec = dropPort) ↔
      (computedHmac P keyHmac s.esp s.payload).take 12 = receivedIcv s.payload ∨
        Decryptable P key s.payload ∧ T.forwardPort (innerDst P key s.payload) = dropPort := by
  have hport := ingress_decrypt P junk iv hesp hsa
  have hdropped : (∃ r, s.ingress P junk iv T = some r ∧ r.egressSpec = dropPort) ↔
      Decryptable P key s.payload ∧ T.forwardPort (innerDst P key s.payload) = dropPort := by
    rw [← Option.map_eq_some_iff,hport]
    split_ifs with hdata <;> simp [hdata]
  rw [hdropped,or_iff_not_imp_left]

private def forgedPacket : State :=
  { plainPacket with
    espValid := true
    payload := replicate 8 0++plainIpv4.bytes++[0,4]++replicate 12 1 }

theorem forged_packet_not_forwarded :
    forgedPacket.espValid ∧ ((computedHmac zeroPrimitives [2] forgedPacket.esp forgedPacket.payload).take 12 ≠
        receivedIcv forgedPacket.payload →
      ∃ r, forgedPacket.ingress zeroPrimitives (fun _ => 0) []
          { protectTables none with forward := fun _ => none } = some r ∧ r.egressSpec = dropPort) :=
  ⟨rfl,(authenticated_iff zeroPrimitives (fun _ => 0) []
    (T := { protectTables none with forward := fun _ => none }) (s := forgedPacket)
    rfl rfl).mpr (Or.inr ⟨by decide,rfl⟩)⟩

/-- The forged packet leaves on port 2 if the forwarding table has an entry for the address in
it. -/
theorem forged_packet_forwarded : ¬((computedHmac zeroPrimitives [2] forgedPacket.esp forgedPacket.payload).take 12 ≠
        receivedIcv forgedPacket.payload →
      ∃ r, forgedPacket.ingress zeroPrimitives (fun _ => 0) [] (protectTables none) = some r ∧
        r.egressSpec = dropPort) := by
  intro h
  obtain ⟨r,hr,hdrop⟩ := h (by decide)
  have hport := ingress_decrypt zeroPrimitives (fun _ => 0) [] (T := protectTables none) (s := forgedPacket) rfl rfl
  rw [hr,if_pos (by decide)] at hport
  rw [Option.map_some,hdrop] at hport
  exact absurd hport (by decide)
end State
end P4Benchmarks.Ipsec
