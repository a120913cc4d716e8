import P4Benchmarks.P4Sync.Switches
/-! # What a migration transfers -/
namespace P4Benchmarks.P4Sync
open Lib List Register Source
def sendMigratePacket (line : FlowKey) (stage : BitVec 8) (index : Nat) : Packet where
  ipv4Valid := true
  ttl := 64
  protocol := migrationProtocol
  totalLen := 71
  flow := line
  migration := ⟨tcpProtocol,stage,.ofNat 16 index,0,0,0,0,0⟩
  signatureValid := false
  signature := ⟨0,0⟩

def sendPlan (traces : Nat → FlowKey) : List Packet :=
  (List.range registerSize).map (fun i => sendMigratePacket (traces i) 1 i) ++
    (List.range registerSize).map fun i => sendMigratePacket (traces i) 2 i

abbrev TcpPacket := { p : Packet // p.ipv4Valid ∧ p.protocol=tcpProtocol }

inductive Event where
  | tcp (p : TcpPacket)
  | migration (p : Packet)

structure Env where
  crc16 : FlowKey → BitVec 16
  junk : Unspecified
  rsaSign : Migration → BitVec 1024
namespace Source
variable (E : Env)
/-- The way of a migration packet from the source to the destination, which for the last one leads
over the RSA sender and once more through the source. -/
def transfer (r : Source × Packet × Option (BitVec 9)) : List Packet :=
  if r.2.2=some 5 then [r.2.1]
  else if r.2.2=some 3 then [(r.1.ingress E.crc16 E.junk 3 (rsaSender E.rsaSign r.2.1)).2.1]
  else []
variable (s : Source)
def step : Event → Source × List Packet
  | .tcp p => ((s.ingress E.crc16 E.junk 1 p).1,[])
  | .migration p =>
    let r := s.ingress E.crc16 E.junk 2 p
    (r.1,transfer E r)

def run (es : List Event) : Source × List Packet :=
  es.foldl (fun r e => ((r.1.step E e).1,r.2++(r.1.step E e).2)) (s,[])

@[simp] theorem run_concat (es : List Event) (e : Event) : s.run E (es++[e]) =
      (((s.run E es).1.step E e).1,(s.run E es).2++((s.run E es).1.step E e).2) := by
  simp [run]
end Source
variable (E : Env)
def Destination.run (d : Destination) (ps : List Packet) : Destination :=
  ps.foldl (fun d p => (d.ingress E.junk 3 p).1) d
variable (es : List Event)
def migrations : List Packet := es.filterMap fun e => match e with | .tcp _ => none | .migration p => some p

def tallyStep (i lo : Nat) (r : Nat × Nat) : Event → Nat × Nat
  | .migration _ => (r.1+1,r.2)
  | .tcp p =>
    (r.1,r.2 + if lo ≤ r.1 ∧ r.1 ≤ registerSize ∧ p.1.valid ∧ flowIndex E.crc16 p.1.flow=i then 1 else 0)

/-- Along the arrivals: the number of migration packets so far, and the number of TCP packets at
index `i` that the source processes after at least `lo` migration packets and before the first one
of stage 2. -/
def tally (i lo : Nat) (es : List Event) : Nat × Nat := es.foldl (tallyStep E i lo) (0,0)
def counted (i : Nat) (es : List Event) : Nat := (tally E i 1 es).2

/-- The TCP packets at the last index between the last but one packet of stage 1 and the first
packet of stage 2. -/
def late : Nat := (tally E (registerSize-1) (registerSize-1) es).2
variable (E : Env) (i lo : Nat) (es : List Event)
theorem tally_concat (e : Event) : tally E i lo (es++[e])=tallyStep E i lo (tally E i lo es) e := by simp [tally]

theorem tally_fst : (tally E i lo es).1=(migrations es).length := by
  induction es using List.reverseRecOn with
  | nil => rfl
  | append_singleton es e ih =>
    rw [tally_concat]
    cases e with
    | migration p | tcp p => simpa [tallyStep,migrations] using ih

theorem tally_tcp (p : TcpPacket) : (tally E i lo (es++[.tcp p])).2 =
      (tally E i lo es).2 + if lo≤(migrations es).length ∧ (migrations es).length ≤ registerSize ∧
          p.1.valid ∧ flowIndex E.crc16 p.1.flow=i then 1 else 0 := by
  rw [tally_concat,tallyStep,tally_fst]

theorem tally_migration (p : Packet) : (tally E i lo (es++[.migration p])).2=(tally E i lo es).2 := by
  rw [tally_concat,tallyStep]

theorem step_tcp (s : Source) (p : TcpPacket) : s.step E (.tcp p) =
      (if p.1.valid then s.count E.junk (flowIndex E.crc16 p.1.flow) else s,[]) := by
  have hprotocol : p.1.protocol=tcpProtocol := p.2.2
  have hother : tcpProtocol≠migrationProtocol := by decide
  cases hvalid : p.1.valid <;> simp [Source.step,ingress,hvalid,hprotocol,hother]
variable {i : Nat} {line : FlowKey} {m : Migration} {stage : BitVec 8} {s t : Source}
private theorem ingress_migration (hload : s.load E.junk (sendMigratePacket line stage i).migration=(t,m)) :
    s.ingress E.crc16 E.junk 2 (sendMigratePacket line stage i) =
      ((t.sign { sendMigratePacket line stage i with migration := m }).1,
        (t.sign { sendMigratePacket line stage i with migration := m }).2.1,
        some (t.sign { sendMigratePacket line stage i with migration := m }).2.2) := by
  have htcp : ¬((sendMigratePacket line stage i).valid ∧ (sendMigratePacket line stage i).protocol=tcpProtocol) := by
    rintro ⟨-,h⟩
    exact absurd (show migrationProtocol=tcpProtocol from h) (by decide)
  have hmigration : (sendMigratePacket line stage i).valid ∧
      (sendMigratePacket line stage i).protocol=migrationProtocol ∧
      (sendMigratePacket line stage i).migration.protocol≠signatureProtocol :=
    ⟨rfl,rfl,show tcpProtocol≠signatureProtocol by decide⟩
  rw [ingress,if_neg htcp,if_pos hmigration]
  simp only [hload]
variable {p : Packet} (d : Destination)
private theorem destination_signature
    (hsign : p.migration.protocol=signatureProtocol) : (d.ingress E.junk 3 p).1=d := by
  rw [Destination.ingress,if_neg (fun h => h.2.2 hsign)]
  split_ifs <;> rfl

private theorem destination_store (hvalid : p.valid) (hprotocol : p.protocol=migrationProtocol)
    (hsign : p.migration.protocol≠signatureProtocol) :
    (d.ingress E.junk 3 p).1.flowsize=(d.store E.junk p.migration).flowsize := by
  rw [Destination.ingress,if_pos ⟨hvalid,hprotocol,hsign⟩,if_pos rfl]

private theorem index_toNat (hi : i < registerSize) : (BitVec.ofNat 16 i).toNat=i := by
  have hsize : registerSize=1024 := rfl
  rw [BitVec.toNat_ofNat]
  omega

private theorem ingress_signed (s : Source) (port : BitVec 9) (hvalid : p.valid)
    (hprotocol : p.protocol=migrationProtocol) (hsigned : p.migration.protocol=signatureProtocol) :
    s.ingress E.crc16 E.junk port p=(s,p,some 5) := by
  have htcp : p.protocol≠tcpProtocol := by
    rw [hprotocol]
    decide
  rw [ingress,if_neg (fun h => htcp h.2),if_neg (fun h => h.2.2 hsigned), if_pos ⟨hvalid,hprotocol,hsigned⟩]

private theorem sign_eq {mac : BitVec 64} (hmac : sipHash s.lastmac p.migration.message=mac) : s.sign p =
    ({ s with lastmac := mac },if p.migration.stage=2 ∧ p.migration.index.toNat=registerSize-1 then
      (Packet.addSignature { p with migration.mac := mac },3) else ({ p with migration.mac := mac },5)) := by
  rw [sign,hmac]

private theorem rsaSender_keeps (rsaSign : Migration → BitVec 1024) (p : Packet) :
    (rsaSender rsaSign p).valid=p.valid ∧ (rsaSender rsaSign p).protocol=p.protocol ∧
      (rsaSender rsaSign p).migration=p.migration := by
  rw [rsaSender]
  split_ifs <;> exact ⟨rfl,rfl,rfl⟩

private theorem transfer_signed (s : Source) (hvalid : p.valid) (hprotocol : p.protocol=migrationProtocol)
    (hsigned : p.migration.protocol=signatureProtocol) : Source.transfer E (s,p,some 3)=[rsaSender E.rsaSign p] := by
  obtain ⟨hvalid',hprotocol',hmigration⟩ := rsaSender_keeps E.rsaSign p
  have hback := ingress_signed E s 3 (hvalid'.trans hvalid) (hprotocol'.trans hprotocol) (hmigration ▸ hsigned)
  have hport : (some 3 : Option (BitVec 9))≠some 5 := by decide
  simp only [Source.transfer,if_neg hport,if_pos,hback]

/-- A packet of `send.py` reaches the destination after its counter is loaded.  The last one carries a signature, and
the destination does not store what it carries. -/
private theorem step_migration (hload : s.load E.junk (sendMigratePacket line stage i).migration=(t,m))
    (htcp : m.protocol=tcpProtocol) : ∃ mac p, s.step E (.migration (sendMigratePacket line stage i)) =
        ({ t with lastmac := mac },[p]) ∧ ∀ d : Destination, (d.ingress E.junk 3 p).1.flowsize =
      if m.stage=2 ∧ m.index.toNat=registerSize-1 then d.flowsize else (d.store E.junk m).flowsize := by
  obtain ⟨mac,hmac⟩ : ∃ mac, sipHash t.lastmac m.message=mac := ⟨_,rfl⟩
  rw [Source.step,ingress_migration E hload,sign_eq (p := { sendMigratePacket line stage i with migration := m }) hmac]
  let q : Packet := { sendMigratePacket line stage i with migration := { m with mac := mac } }
  by_cases hlast : m.stage=2 ∧ m.index.toNat=registerSize-1
  · refine ⟨mac,rsaSender E.rsaSign q.addSignature,?_,fun d => ?_⟩
    · simp only [if_pos hlast]
      exact congrArg _ (transfer_signed E { t with lastmac := mac } rfl rfl rfl)
    · rw [destination_signature E d rfl,if_pos hlast]
  · refine ⟨mac,q,?_,fun d => ?_⟩
    · simp only [if_neg hlast]
      rfl
    · have hsign : m.protocol≠signatureProtocol := by
        rw [htcp]
        decide
      rw [destination_store E d rfl rfl hsign,if_neg hlast]
      rfl

theorem step_stage1 (s : Source) (line : FlowKey) (hi : i < registerSize) :
    ∃ mac p, s.step E (.migration (sendMigratePacket line 1 i)) =
        ({ s with stage := 1, mainprogress := s.mainprogress+1, lastmac := mac },[p]) ∧
      ∀ d : Destination, (d.ingress E.junk 3 p).1.flowsize = d.flowsize.write i (s.flowsize.read E.junk i) := by
  have hload : s.load E.junk (sendMigratePacket line 1 i).migration =
      ({ s with stage := 1, mainprogress := s.mainprogress+1 },
        ⟨tcpProtocol,1,.ofNat 16 i,s.flowsize.read E.junk i,0,0,s.mainprogress,0⟩) := by
    simp only [load,sendMigratePacket,if_pos,index_toNat hi]
  obtain ⟨mac,p,hstep,hstore⟩ := step_migration E hload rfl
  refine ⟨mac,p,hstep,fun d => ?_⟩
  rw [hstore,if_neg fun h => absurd (show (1 : BitVec 8)=2 from h.1) (by decide)]
  simp only [Destination.store,if_pos,index_toNat hi]

private theorem load_stage2 (s : Source) (line : FlowKey) (hi : i < registerSize) :
    s.load E.junk (sendMigratePacket line 2 i).migration = ({ s with stage := 2, deltaprogress := s.deltaprogress+1 },
        ⟨tcpProtocol,2,.ofNat 16 i,s.deltaflowsize.read E.junk i,0,0,0,s.deltaprogress⟩) := by
  have hstage : (2 : BitVec 8)≠1 := by decide
  simp only [load,sendMigratePacket,if_neg hstage,if_pos,index_toNat hi]

theorem step_stage2 (s : Source) (line : FlowKey) (hi : i < registerSize) :
    ∃ mac p, s.step E (.migration (sendMigratePacket line 2 i)) =
        ({ s with stage := 2, deltaprogress := s.deltaprogress+1, lastmac := mac },[p]) ∧
      ∀ d : Destination, (d.ingress E.junk 3 p).1.flowsize = if i=registerSize-1 then d.flowsize
        else d.flowsize.write i (d.flowsize.read E.junk i+s.deltaflowsize.read E.junk i) := by
  have hstage : (2 : BitVec 8)≠1 := by decide
  obtain ⟨mac,p,hstep,hstore⟩ := step_migration E (load_stage2 E s line hi) rfl
  refine ⟨mac,p,hstep,fun d => ?_⟩
  rw [hstore]
  simp only [Destination.store,if_neg hstage,if_pos,index_toNat hi,true_and]

theorem Destination.run_append (ps qs : List Packet) : d.run E (ps++qs)=(d.run E ps).run E qs := foldl_append
theorem migrations_tcp (p : TcpPacket) : migrations (es++[.tcp p])=migrations es := by simp [migrations]
theorem migrations_migration (p : Packet) : migrations (es++[.migration p])=migrations es++[p] := by simp [migrations]

def lastIndex : Fin registerSize := ⟨registerSize-1,by decide⟩

/-- The state of both switches after `k` migration packets. The counter of index `i` is split
between the array that is the current one for `i` and the part of its delta that is still to be
added. -/
structure Split (E : Env) (init : Register registerSize 32) (es : List Event) (k : Nat)
    (s : Source) (d : Destination) : Prop where
  stage : s.stage = if k=0 then 0 else if k ≤ registerSize then 1 else 2
  mainprogress : s.mainprogress.toNat=min k registerSize
  parts : ∀ i : Fin registerSize, (if i.val<k then d.flowsize i else s.flowsize i) +
        (if i.val<k-registerSize ∧ i.val≠registerSize-1 then 0 else s.deltaflowsize i) =
      init i+.ofNat 32 (counted E i es)
  last : s.deltaflowsize lastIndex=.ofNat 32 (late E es)
variable {d : Destination} {init : Register registerSize 32} {k : Nat}
private theorem Split.same {E : Env} {es es' : List Event} (h : Split E init es k s d)
    (htally : ∀ i lo, 0 < lo → (tally E i lo es').2=(tally E i lo es).2) : Split E init es' k s d where
  __ := h
  parts i := (h.parts i).trans (by rw [counted,counted,htally i 1 Nat.one_pos])
  last := h.last.trans (by rw [late,late,htally _ _ (by decide)])

theorem bump_apply (junk : Unspecified) (r : Register registerSize 32) (j : Nat)
    (i : Fin registerSize) : bump junk r j i=r i + if j=i.val then 1#32 else 0#32 := by
  rw [bump,write_apply]
  by_cases hij : j=i.val
  · rw [if_pos hij.symm,if_pos hij,hij,read_val]
    rfl
  · rw [if_neg (Ne.symm hij),if_neg hij,BitVec.add_zero]
variable {j : Nat}
/-- A packet counted between the first packets of the two stages goes to the array that keeps the
sum right, and to the last delta exactly from the last but one packet of stage 1 on. -/
private theorem Split.count {E : Env} {es es' : List Event} (h : Split E init es k s d)
    (hk : 1≤k) (hkN : k ≤ registerSize)
    (hcounted : ∀ i, counted E i es'=counted E i es + if j=i then 1 else 0)
    (hlate : late E es'=late E es + if registerSize-1≤k ∧ j=registerSize-1 then 1 else 0) :
    Split E init es' k (s.count E.junk j) d := by
  have hstage : s.stage=1 := by rw [h.stage,if_neg (by omega),if_pos hkN]
  have hprogress : s.mainprogress.toNat=k := by rw [h.mainprogress,Nat.min_eq_left hkN]
  have hnone : ∀ i : Fin registerSize, ¬(i.val<k-registerSize ∧ i.val≠registerSize-1) := by omega
  have hsum (i : Fin registerSize) : init i+.ofNat 32 (counted E i es') =
      (if i.val<k then d.flowsize i else s.flowsize i)+s.deltaflowsize i +
        if j=i.val then 1#32 else 0#32 := by
    have hparts := h.parts i
    rw [if_neg (hnone i)] at hparts
    rw [hcounted,BitVec.ofNat_add,← BitVec.add_assoc,← hparts]
    split_ifs <;> rfl
  rw [Source.count,if_pos hstage,hprogress]
  split_ifs with hjk
  · -- not yet migrated, so the main array is still the one that counts
    refine ⟨h.stage,h.mainprogress,?_,?_⟩
    · intro i
      rw [if_neg (hnone i),hsum]
      by_cases hik : i.val<k
      · rw [if_pos hik,if_pos hik,if_neg (by omega),BitVec.add_zero]
      · rw [if_neg hik,if_neg hik]
        change bump E.junk s.flowsize j i+s.deltaflowsize i=_
        rw [bump_apply,BitVec.add_assoc,BitVec.add_assoc,BitVec.add_comm (s.deltaflowsize i)]
    · rw [h.last,hlate,if_neg (by omega),Nat.add_zero]
  · refine ⟨h.stage,h.mainprogress,?_,?_⟩
    · intro i
      rw [if_neg (hnone i),hsum]
      change _+bump E.junk s.deltaflowsize j i=_
      rw [bump_apply,BitVec.add_assoc]
    · change bump E.junk s.deltaflowsize j lastIndex=_
      rw [bump_apply,h.last,hlate,BitVec.ofNat_add]
      refine congrArg _ ?_
      change (if j=registerSize-1 then 1#32 else 0#32)=_
      by_cases hjlast : j=registerSize-1
      · rw [if_pos hjlast,if_pos ⟨by omega,hjlast⟩]
      · rw [if_neg hjlast,if_neg fun hboth => hjlast hboth.2]
variable {es : List Event}

section
variable {E : Env}
/-- Before stage 1 no packet is counted; after the first packet of stage 2 they go to the main array of the source,
which no longer matters. -/
private theorem Split.outside (h : Split E init es k s d) (hk : ¬(1≤k ∧ k ≤ registerSize)) :
    Split E init es k (s.count E.junk j) d := by
  rcases Nat.eq_zero_or_pos k with rfl | hpos
  · have hstage : s.stage=0 := h.stage
    rw [Source.count,if_neg (by rw [hstage]; decide),if_neg (by rw [hstage]; decide)]
    exact h
  · have hstage : s.stage=2 := by rw [h.stage,if_neg (by omega),if_neg (by omega)]
    rw [Source.count,if_neg (by rw [hstage]; decide),if_pos hstage]
    refine ⟨h.stage,h.mainprogress,fun i => ?_,h.last⟩
    have hik : i.val<k := by omega
    rw [← h.parts i,if_pos hik,if_pos hik]

theorem Split.tcp (h : Split E init es (migrations es).length s d) (p : TcpPacket) :
    Split E init (es++[.tcp p]) (migrations es).length (s.step E (.tcp p)).1 d := by
  rw [step_tcp]
  by_cases hcount : (1≤(migrations es).length ∧ (migrations es).length ≤ registerSize) ∧ p.1.valid
  · obtain ⟨⟨hk,hkN⟩,hvalid⟩ := hcount
    rw [if_pos hvalid]
    refine h.count hk hkN (fun i => ?_) ?_
    · simpa [counted,hk,hkN,hvalid] using tally_tcp E i 1 es p
    · simpa [late,hkN,hvalid] using tally_tcp E (registerSize-1) (registerSize-1) es p
  · have hkeep : Split E init es (migrations es).length
        (if p.1.valid then s.count E.junk (flowIndex E.crc16 p.1.flow) else s) d := by
      split_ifs with hvalid
      · exact h.outside fun hk => hcount ⟨hk,hvalid⟩
      · exact h
    refine hkeep.same fun i lo hlo => ?_
    rw [tally_tcp,if_neg fun hin => hcount ⟨⟨by omega,hin.2.1⟩,hin.2.2.1⟩]
    rfl
variable {d d' : Destination}
private theorem Split.stage1 (h : Split E init es k s d) (hk : k < registerSize)
    (mac : BitVec 64) (hd : d'.flowsize=d.flowsize.write k (s.flowsize.read E.junk k)) :
    Split E init es (k+1)
      { s with stage := 1, mainprogress := s.mainprogress+1, lastmac := mac } d' := by
  have hsize : registerSize=1024 := rfl
  refine ⟨?_,?_,?_,h.last⟩
  · rw [if_neg k.succ_ne_zero,if_pos (Nat.succ_le_of_lt hk)]
  · have hprogress := h.mainprogress
    rw [BitVec.toNat_add,hprogress]
    change (min k registerSize+1)%65536=_
    omega
  · intro i
    have hnone (n : Nat) (hn : n ≤ registerSize) : ¬(i.val<n-registerSize ∧ i.val≠registerSize-1) := by omega
    have hparts := h.parts i
    rw [if_neg (hnone k (Nat.le_of_lt hk))] at hparts
    rw [if_neg (hnone (k+1) hk),← hparts,hd,write_apply]
    congr 1
    rcases Nat.lt_trichotomy i.val k with hik | rfl | hik
    · rw [if_pos (by omega),if_neg (by omega),if_pos hik]
    · rw [if_pos (by omega),if_pos rfl,if_neg (by omega),read_val]
    · rw [if_neg (by omega),if_neg (by omega)]

private theorem Split.stage2 (h : Split E init es (registerSize+j) s d) (hj : j < registerSize) (mac : BitVec 64)
    (hd : d'.flowsize = if j=registerSize-1 then d.flowsize
      else d.flowsize.write j (d.flowsize.read E.junk j+s.deltaflowsize.read E.junk j)) :
    Split E init es (registerSize+j+1)
      { s with stage := 2, deltaprogress := s.deltaprogress+1, lastmac := mac } d' := by
  refine ⟨?_,?_,?_,h.last⟩
  · rw [if_neg (Nat.succ_ne_zero _),if_neg (by omega)]
  · rw [h.mainprogress]
    omega
  · intro i
    have hparts := h.parts i
    rw [if_pos (by omega)] at hparts ⊢
    rw [← hparts,hd]
    by_cases hij : i.val=j ∧ j≠registerSize-1
    · obtain ⟨rfl,hlast⟩ := hij
      rw [if_neg hlast,write_apply,if_pos rfl,if_pos (by omega),if_neg (by omega),read_val,read_val]
      exact BitVec.add_zero _
    · have hiff : (i.val < registerSize+j+1-registerSize ∧ i.val≠registerSize-1) ↔
          (i.val < registerSize+j-registerSize ∧ i.val≠registerSize-1) := by omega
      simp only [hiff]
      by_cases hlast : j=registerSize-1
      · rw [if_pos hlast]
      · rw [if_neg hlast,write_apply,if_neg fun heq => hij ⟨heq,hlast⟩]
end
variable (traces : Nat → FlowKey)
theorem sendPlan_stage1 (hk : k < registerSize) : (sendPlan traces)[k]?=some (sendMigratePacket (traces k) 1 k) := by
  rw [sendPlan,List.getElem?_append_left (by simpa using hk)]
  simp [hk]

theorem sendPlan_stage2 (hj : j < registerSize) :
    (sendPlan traces)[registerSize+j]?=some (sendMigratePacket (traces j) 2 j) := by
  rw [sendPlan,List.getElem?_append_right (by simp)]
  simp [hj]

theorem length_sendPlan : (sendPlan traces).length=registerSize+registerSize := by simp [sendPlan]
variable {traces : Nat → FlowKey}
private theorem Split.step {E : Env} (h : Split E init es k s d) (hp : (sendPlan traces)[k]?=some p) :
    Split E init es (k+1) (s.step E (.migration p)).1 (d.run E (s.step E (.migration p)).2) := by
  rcases Nat.lt_or_ge k registerSize with hk | hk
  · obtain rfl : _=p := Option.some.inj ((sendPlan_stage1 traces hk).symm.trans hp)
    obtain ⟨mac,q,hstep,hd⟩ := step_stage1 E s (traces k) hk
    rw [hstep]
    exact h.stage1 hk mac (hd d)
  · obtain ⟨j,rfl⟩ := Nat.exists_eq_add_of_le hk
    have hj : j < registerSize := by
      have hlt := (List.getElem?_eq_some_iff.mp hp).1
      rw [length_sendPlan] at hlt
      omega
    obtain rfl : _=p := Option.some.inj ((sendPlan_stage2 traces hj).symm.trans hp)
    obtain ⟨mac,q,hstep,hd⟩ := step_stage2 E s (traces j) hj
    rw [hstep]
    exact h.stage2 hj mac (hd d)

def Source.initial (init : Register registerSize 32) (lastmac : BitVec 64) : Source where
  flowsize := init
  deltaflowsize := .filled 0
  stage := 0
  mainprogress := 0
  deltaprogress := 0
  lastmac := lastmac
section
variable (E : Env) (init : Register registerSize 32) (lastmac : BitVec 64) (d : Destination)

def migrated (es : List Event) : Destination := d.run E ((initial init lastmac).run E es).2

theorem split_run {es : List Event} (hes : migrations es <+: sendPlan traces) :
    Split E init es (migrations es).length ((initial init lastmac).run E es).1 (migrated E init lastmac d es) := by
  induction es using List.reverseRecOn with
  | nil =>
    refine ⟨rfl,rfl,?_,rfl⟩
    intro i
    have hsecond : ¬(i.val<0-registerSize ∧ i.val≠registerSize-1) := by omega
    exact (congrArg₂ (· + ·) (if_neg i.val.not_lt_zero) (if_neg hsecond)).trans rfl
  | append_singleton es e ih =>
    rw [migrated,Source.run_concat,Destination.run_append]
    cases e with
    | tcp p =>
      rw [migrations_tcp] at hes ⊢
      rw [show ((initial init lastmac).run E es).1.step E (.tcp p)=(_,[]) from
        step_tcp E _ p]
      have hstep := (ih hes).tcp p
      rw [step_tcp] at hstep
      exact hstep
    | migration p =>
      rw [migrations_migration] at hes ⊢
      obtain ⟨rest,hrest⟩ := hes
      have hp : (sendPlan traces)[(migrations es).length]?=some p := by
        rw [← hrest]
        simp
      have hstep := (ih ⟨p::rest,by simpa using hrest⟩).step hp
      rw [length_append,length_singleton]
      exact hstep.same fun i lo _ => tally_migration E i lo es p

/-- The destination's counter of every index but the last is right after the migration, and the
last one lacks the delta that the signed packet carries. -/
theorem migrated_flowsize {es : List Event} (hes : migrations es=sendPlan traces) (i : Fin registerSize) :
    (migrated E init lastmac d es).flowsize i + (if i=lastIndex then .ofNat 32 (late E es) else 0#32) =
      init i+.ofNat 32 (counted E i es) := by
  have hpre : migrations es <+: sendPlan traces := hes ▸ prefix_rfl
  have h := split_run E init lastmac d hpre
  rw [hes,length_sendPlan] at h
  have hparts := h.parts i
  rw [if_pos (by omega)] at hparts
  by_cases hlast : i=lastIndex
  · have hval : i.val=registerSize-1 := congrArg Fin.val hlast
    rw [if_neg fun hother => hother.2 hval] at hparts
    rw [← hparts,if_pos hlast,← h.last,hlast]
  · have hval : i.val≠registerSize-1 := fun hval => hlast (Fin.ext hval)
    rw [if_pos ⟨by omega,hval⟩] at hparts
    rw [← hparts,if_neg hlast]
    rfl

/-- The migration loses no update exactly if the updates at the last index that go to its delta
vanish modulo `2 ^ 32`: the packet that carries this delta is signed, and the destination passes
signed packets on without adding what they carry. -/
theorem migrated_exact_iff {traces : Nat → FlowKey} {es : List Event} (hes : migrations es=sendPlan traces) :
    (∀ i : Fin registerSize, (migrated E init lastmac d es).flowsize i =
        init i+.ofNat 32 (counted E i es)) ↔ late E es%2^32=0 := by
  have hzero : .ofNat 32 (late E es)=0#32 ↔ late E es%2^32=0 := by
    rw [BitVec.toNat_eq,BitVec.toNat_ofNat,BitVec.toNat_ofNat,Nat.zero_mod]
  rw [← hzero]
  constructor
  · intro hexact
    have hlast := migrated_flowsize E init lastmac d hes lastIndex
    rw [if_pos rfl,← hexact lastIndex] at hlast
    exact BitVec.add_right_eq_self.mp hlast
  · intro hlate i
    have hi := migrated_flowsize E init lastmac d hes i
    rw [hlate,ite_self,BitVec.add_zero] at hi
    exact hi
end

theorem tally_migrations (i lo : Nat) (es : List Event) (ps : List Packet) :
    (tally E i lo (es++ps.map .migration)).2=(tally E i lo es).2 := by
  induction ps using List.reverseRecOn with
  | nil => rw [map_nil,append_nil]
  | append_singleton ps p ih => rw [map_append,map_singleton,← append_assoc,tally_migration,ih]

theorem migrations_map (ps : List Packet) : migrations (ps.map .migration)=ps := by simp [migrations]
private def lastFlow : FlowKey := ⟨0x0a000101,0x0a000303,1024,80⟩
private def lastEnv : Env := ⟨fun _ => 1023,fun _ => 0,fun _ => 0⟩
private def emptyDestination : Destination := ⟨.filled 0,0⟩

private def lastPacket : TcpPacket :=
  ⟨{ ipv4Valid := true, ttl := 64, protocol := tcpProtocol, totalLen := 40, flow := lastFlow,
     migration := ⟨0,0,0,0,0,0,0,0⟩, signatureValid := false, signature := ⟨0,0⟩ },
    rfl,rfl⟩

private def sendStage (n : BitVec 8) : List Packet := (List.range registerSize).map fun i => sendMigratePacket lastFlow n i

private def fifthEnv : Env := ⟨fun _ => 5,fun _ => 0,fun _ => 0⟩

private def bothArrays : List Event :=
  ((sendStage 1).take 3).map .migration ++ [.tcp lastPacket] ++ ((sendStage 1).drop 3).map .migration ++
    [.tcp lastPacket] ++ (sendStage 2).map .migration

theorem bothArrays_migrated : counted fifthEnv 5 bothArrays = 2 ∧
    ∀ i : Fin registerSize, (migrated fifthEnv (.filled 7) 0 emptyDestination bothArrays).flowsize i =
      (filled 7 : Register registerSize 32) i + .ofNat 32 (counted fifthEnv i bothArrays) := by
  have hpart : migrations (((sendStage 1).take 3).map .migration++[.tcp lastPacket]++
      ((sendStage 1).drop 3).map .migration) = sendStage 1 := by
    rw [migrations,filterMap_append,← migrations,← migrations,migrations_tcp,migrations_map,migrations_map,
      take_append_drop]
  have hes : migrations bothArrays = sendPlan fun _ => lastFlow := by
    rw [bothArrays,migrations,filterMap_append,← migrations,← migrations,migrations_tcp,hpart,migrations_map]
    rfl
  have htally (i lo : Nat) (hlo : lo ≤ registerSize) :
      (tally fifthEnv i lo bothArrays).2 = (if lo ≤ 3 ∧ 5 = i then 1 else 0)+if 5 = i then 1 else 0 := by
    have hfirst : (tally fifthEnv i lo (((sendStage 1).take 3).map .migration)).2 = 0 := by
      rw [← nil_append (map _ _),tally_migrations]
      rfl
    have hlength : (sendStage 1).length = registerSize := by rw [sendStage,length_map,length_range]
    have hindex : flowIndex fifthEnv.crc16 lastPacket.1.flow = 5 := by decide
    have hvalid : lastPacket.1.valid := rfl
    rw [bothArrays,tally_migrations,tally_tcp,hpart,tally_migrations,tally_tcp,hfirst,migrations_map,
      length_take,hlength,hindex]
    simp [hvalid,hlo,show 3 ≤ registerSize by decide]
  refine ⟨htally 5 1 (by decide),(migrated_exact_iff fifthEnv (.filled 7) 0 emptyDestination hes).mpr ?_⟩
  rw [late,htally _ _ (by decide),if_neg (by decide),if_neg (by decide)]
  rfl

private def oneLate : List Event := (sendStage 1).map .migration ++ [.tcp lastPacket] ++ (sendStage 2).map .migration

theorem migrated_oneLate :
    ¬∀ i : Fin registerSize, (migrated lastEnv (.filled 7) 0 emptyDestination oneLate).flowsize i =
      (filled 7 : Register registerSize 32) i + .ofNat 32 (counted lastEnv i oneLate) := by
  have hes : migrations oneLate=sendPlan fun _ => lastFlow := by simp [migrations,oneLate,sendStage,sendPlan]
  have hlate : late lastEnv oneLate=1 := by
    rw [late,oneLate,tally_migrations,tally_tcp,migrations_map,sendStage,length_map,
      length_range,if_pos ⟨by decide,le_rfl,rfl,rfl⟩,
      ← nil_append (List.map _ _),tally_migrations]
    rfl
  intro hexact
  have hlast := migrated_flowsize lastEnv (.filled 7) 0 emptyDestination hes lastIndex
  rw [if_pos rfl,← hexact lastIndex,hlate] at hlast
  exact absurd (BitVec.add_right_eq_self.mp hlast) (by decide)
end P4Benchmarks.P4Sync
