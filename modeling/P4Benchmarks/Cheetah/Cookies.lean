import P4Benchmarks.Cheetah.Partitions
import P4Benchmarks.Lib.Execution
/-!
# Cheetah: cookies of open connections

The first partition recycles its indices through a ring. The second one does not: its ring positions
start at 0 but wrap from 20 to 10, so after ten connections the pop index leaves the array for good.
-/
namespace P4Benchmarks.Cheetah
open Lib List Function Option Register Packet

structure Connection where
  hashInput : HashInput
  cookie : BitVec 16
  server : Option Server
  serverId : BitVec 16
  isOpen : Bool

structure System where
  registers : Registers
  connections : List Connection

inductive Event where
  | syn (p : Packet)
  | later (i : Nat) (p : Packet)
variable (p : Packet)
def Packet.FromClient : Prop := p.ipv4Valid ∧ p.dstAddr=vip ∧ p.tcpValid
instance (p : Packet) : Decidable p.FromClient := inferInstanceAs (Decidable (_ ∧ _ ∧ _))

def Packet.LeavesFor (server : Server) : Prop :=
  p.dstAddr=server.dip ∧ p.ethernetDst=server.macServer ∧ p.egressSpec=server.egressPort.setWidth 9

def Tables.Consistent (T : Tables) : Prop :=
  ∀ bucketId server serverId, T.getServerFromBucket bucketId=some (server,serverId) →
    T.getServerFromId serverId=some server
section
variable (crc16 : HashInput → BitVec 16) (junk : Unspecified) (T : Tables) (c : Connection)
def Connection.hash : BitVec 16 := packetHash crc16 c.hashInput
def Connection.second : Bool := partition (c.hash crc16)
def Packet.Echoes : Prop := p.FromClient ∧ p.syn=0 ∧ p.hashInput=c.hashInput ∧ p.tsecrLsb=c.cookie
instance (p : Packet) (c : Connection) : Decidable (p.Echoes c) := inferInstanceAs (Decidable (_ ∧ _ ∧ _ ∧ _))
variable (s : System)
def step : Event → Option System
  | .syn p =>
    if p.FromClient ∧ p.syn=1 then
      let out := ingress crc16 junk T s.registers p
      let server := (T.getServerFromBucket s.registers.bucketCounter).map Prod.fst
      let serverId := (p.sentToBucket T s.registers.bucketCounter).2
      some ⟨out.1,s.connections++[⟨p.hashInput,out.2.tsecrLsb,server,serverId,true⟩]⟩
    else none
  | .later i p =>
    match s.connections[i]? with
    | some c =>
      if p.Echoes c then
        let out := ingress crc16 junk T s.registers p
        some ⟨out.1,if p.fin=1 then s.connections.set i { c with isOpen := false } else s.connections⟩
      else none
    | none => none

@[local simp] def openCount (connections : List Connection) (u : Bool) : Nat :=
  connections.countP fun c => c.isOpen&&c.second crc16==u

def Capacity : Event → Prop
  | .syn p => openCount crc16 s.connections (partition (packetHash crc16 p.hashInput))<10
  | .later _ _ => True

instance (s : System) (e : Event) : Decidable (Capacity crc16 s e) :=
  match e with
  | .syn _ => inferInstanceAs (Decidable (_<_))
  | .later _ _ => .isTrue trivial

/-- What the load balancer needs in addition: the second partition hands out each of its indices once
only, and the end of a connection that has ended before does not meet a connection with the same hash
at its old index. -/
def Sound : Event → Prop
  | .syn p => partition (packetHash crc16 p.hashInput) →
      (s.registers.popIndex.read junk 1).toNat<10
  | .later i p => ∀ c, s.connections[i]?=some c → c.isOpen=false → p.fin=1 →
      s.registers.indexToHash.read junk (c.cookie+offset (c.second crc16)).toNat≠c.hash crc16

instance (s : System) (e : Event) : Decidable (Sound crc16 junk s e) :=
  match e with
  | .syn _ => inferInstanceAs (Decidable (_ → _))
  | .later i p => inferInstanceAs (Decidable (∀ c ∈ s.connections[i]?, c.isOpen=false →
      p.fin=1 → _≠_))

def Initial (r : Registers) : Prop :=
  (∀ u, popAt junk r u=0 ∧ pushAt junk r u=0) ∧ ∀ u, ring junk r u=(List.range 10).map (.ofNat 16)

instance (r : Registers) : Decidable (Initial junk r) :=
  inferInstanceAs (Decidable ((∀ _ : Bool, _ ∧ _) ∧ ∀ _ : Bool, _))
variable (r : Registers) (connections : List Connection) (q : Bool → List (BitVec 16))
/-- The open connections hold indices that are not free, each its own, and the tables have an entry
for each of them. -/
structure Slots : Prop where
  cookie : ∀ (i : Nat) (c : Connection), connections[i]?=some c → c.isOpen →
    c.cookie.toNat<10 ∧ c.cookie ∉ q (c.second crc16)
  stored : ∀ (i : Nat) (c : Connection), connections[i]?=some c → c.isOpen →
    hashAt junk r (c.second crc16) c.cookie.toNat=c.hash crc16 ∧
      serverAt junk r (c.second crc16) c.cookie.toNat=c.serverId
  distinct : ∀ (i j : Nat) (c d : Connection), connections[i]?=some c → connections[j]?=some d → c.isOpen → d.isOpen →
    c.second crc16=d.second crc16 → c.cookie=d.cookie → i=j

structure Inv : Prop where
  queues : Queues junk r (openCount crc16 connections) q
  slots : Slots crc16 junk r connections q
variable {crc16 junk T} {r connections q} {u : Bool}
theorem Inv.initial (h : Initial junk r) : Inv crc16 junk r [] fun _ => (List.range 10).map (.ofNat 16) := by
  obtain ⟨hindex,hring⟩ := h
  have hpop (u : Bool) : (popAt junk r u).toNat=0 := by rw [(hindex u).1]; rfl
  have hpush (u : Bool) : (pushAt junk r u).toNat=0 := by rw [(hindex u).2]; rfl
  refine ⟨⟨?_,?_,?_,fun _ => by decide,?_⟩,⟨by simp,by simp,by simp⟩⟩
  · intro u
    have hreads := cyclicReads_prefix ((List.range 10).map (BitVec.ofNat 16)) []
    rwa [hpop,hring]
  · rw [hpop,hpush]
    exact ⟨by decide,rfl,rfl⟩
  · rw [hpop,hpush]
    exact ⟨rfl,rfl⟩
  · intro _ v hv
    obtain ⟨k,hk,rfl⟩ := mem_map.mp hv
    have hlt := mem_range.mp hk
    rw [BitVec.toNat_ofNat]
    omega
variable {i : Nat}
theorem getElem?_concat_cases {α : Type} {l : List α} {a x : α}
    (h : (l++[a])[i]?=some x) : l[i]?=some x ∨ (i=l.length ∧ x=a) := by
  rcases Nat.lt_trichotomy i l.length with hi | rfl | hi
  · rw [List.getElem?_append_left hi] at h
    exact Or.inl h
  · rw [List.getElem?_concat_length] at h
    exact Or.inr ⟨rfl,(some.inj h).symm⟩
  · rw [List.getElem?_eq_none (by simp; omega)] at h
    cases h
variable {c : Connection}
theorem openCount_concat (hopen : c.isOpen) (hu : c.second crc16=u) : openCount crc16 (connections++[c]) =
      update (openCount crc16 connections) u (openCount crc16 connections u+1) := by
  funext w
  rw [openCount,countP_append,countP_singleton,hopen,hu,Bool.true_and]
  by_cases hw : w=u
  · subst hw
    simp
  · rw [update_of_ne hw,if_neg (by simpa using Ne.symm hw),Nat.add_zero,openCount]

theorem Slots.acquire (h : Slots crc16 junk r connections q) {x : HashInput} {v serverId : BitVec 16}
    {server : Option Server} {rest : List (BitVec 16)} (hu : partition (packetHash crc16 x)=u) (hq : q u=v::rest)
    (hcookie : nextCookie junk u r=v) (hv : v.toNat<10) (hnodup : (v::rest).Nodup) :
    Slots crc16 junk (acquire junk u (packetHash crc16 x) serverId r) (connections++[⟨x,v,server,serverId,true⟩])
    (update q u rest) := by
  have hv' : (nextCookie junk u r).toNat<10 := by rwa [hcookie]
  have hfresh (k : Nat) (e : Connection) (he : connections[k]?=some e) (hopen : e.isOpen)
      (hw : e.second crc16=u) : e.cookie≠v := by
    rintro rfl
    have hnot := (h.cookie k e he hopen).2
    rw [hw,hq] at hnot
    exact hnot mem_cons_self
  refine ⟨?_,?_,?_⟩
  · intro i c hc hopen
    rcases getElem?_concat_cases hc with hold | ⟨-,rfl⟩
    · obtain ⟨hlt,hnot⟩ := h.cookie i c hold hopen
      refine ⟨hlt,?_⟩
      by_cases hw : c.second crc16=u
      · rw [hw,update_self]
        rw [hw,hq] at hnot
        exact fun hmem => hnot (mem_cons_of_mem v hmem)
      · rwa [update_of_ne hw]
    · refine ⟨hv,?_⟩
      rw [Connection.second,Connection.hash,hu,update_self]
      exact (nodup_cons.mp hnodup).1
  · intro i c hc hopen
    rcases getElem?_concat_cases hc with hold | ⟨-,rfl⟩
    · have hlt := (h.cookie i c hold hopen).1
      have hother : ¬(c.second crc16=u ∧ c.cookie.toNat=(nextCookie junk u r).toNat) := by
        rintro ⟨hw,heq⟩
        rw [hcookie] at heq
        exact hfresh i c hold hopen hw (BitVec.eq_of_toNat_eq heq)
      obtain ⟨hhash,hserver⟩ := entry_acquire hv' (packetHash crc16 x) serverId (c.second crc16) hlt
      rw [hhash,hserver,if_neg hother,if_neg hother]
      exact h.stored i c hold hopen
    · have hnew := entry_acquire hv' (packetHash crc16 x) serverId u hv
      rw [hcookie,if_pos ⟨rfl,rfl⟩,if_pos ⟨rfl,rfl⟩] at hnew
      rwa [Connection.second,Connection.hash,hu]
  · intro i j c d hc hd hopenc hopend hsecond heq
    rcases getElem?_concat_cases hc with hoc | ⟨rfl,rfl⟩ <;> rcases getElem?_concat_cases hd with hod | ⟨rfl,rfl⟩
    · exact h.distinct i j c d hoc hod hopenc hopend hsecond heq
    · exact absurd heq (hfresh i c hoc hopenc (hsecond.trans hu))
    · exact absurd heq.symm (hfresh j d hod hopend (hsecond.symm.trans hu))
    · rfl

theorem openCount_pos (hc : connections[i]?=some c)
    (hopen : c.isOpen) : 0<openCount crc16 connections (c.second crc16) :=
  countP_pos_iff.mpr ⟨c,mem_of_getElem? hc,by simp [hopen]⟩

theorem openCount_close (hc : connections[i]?=some c) (hopen : c.isOpen) :
    openCount crc16 (connections.set i { c with isOpen := false }) =
      update (openCount crc16 connections) (c.second crc16) (openCount crc16 connections (c.second crc16)-1) := by
  obtain ⟨hi,rfl⟩ := List.getElem?_eq_some_iff.mp hc
  funext w
  rw [openCount,countP_set hi]
  by_cases hw : w=connections[i].second crc16
  · subst hw
    simp [hopen]
  · rw [update_of_ne hw]
    simp [hopen,Ne.symm hw]

theorem getElem?_close {i j : Nat} {c d : Connection}
    (hd : (connections.set i { c with isOpen := false })[j]?=some d) (hopen : d.isOpen) :
    j≠i ∧ connections[j]?=some d := by
  rw [List.getElem?_set] at hd
  split_ifs at hd with hij hi
  · rw [← some.inj hd] at hopen
    cases hopen
  · exact ⟨fun h => hij h.symm,hd⟩

theorem Slots.release (h : Slots crc16 junk r connections q) (hc : connections[i]?=some c) (hopen : c.isOpen) :
    Slots crc16 junk (release junk (c.second crc16) c.cookie r) (connections.set i { c with isOpen := false })
      (Queues.released q (c.second crc16) c.cookie) := by
  obtain ⟨hcookie,hnot⟩ := h.cookie i c hc hopen
  refine ⟨?_,?_,?_⟩
  · intro j d hd hopend
    obtain ⟨hne,hold⟩ := getElem?_close hd hopend
    refine ⟨(h.cookie j d hold hopend).1,?_⟩
    intro hmem
    rcases Queues.mem_released hmem with hq | ⟨heq,hsecond⟩
    · exact (h.cookie j d hold hopend).2 hq
    · exact hne (h.distinct j i d c hold hc hopend hopen hsecond heq)
  · intro j d hd hopend
    obtain ⟨hne,hold⟩ := getElem?_close hd hopend
    have hlt := (h.cookie j d hold hopend).1
    have hother : ¬(d.second crc16=c.second crc16 ∧ d.cookie.toNat=c.cookie.toNat) :=
      fun heq => hne (h.distinct j i d c hold hc hopend hopen heq.1 (BitVec.eq_of_toNat_eq heq.2))
    obtain ⟨hhash,hserver⟩ := entry_release hcookie (d.second crc16) hlt
    rw [hhash,hserver,if_neg hother,if_neg hother]
    exact h.stored j d hold hopend
  · intro j k d e hd he hopend hopene hsecond heq
    exact h.distinct j k d e (getElem?_close hd hopend).2 (getElem?_close he hopene).2 hopend hopene hsecond heq

theorem Inv.frame (h : Inv crc16 junk r connections q) (bucketCounter debugHash : BitVec 16) :
    Inv crc16 junk { r with bucketCounter := bucketCounter, debugHash := debugHash } connections q :=
  ⟨⟨h.queues.reads,h.queues.first,h.queues.second,h.queues.nodup,h.queues.small⟩,
    ⟨h.slots.cookie,h.slots.stored,h.slots.distinct⟩⟩

theorem Inv.exists_free (h : Inv crc16 junk r connections q) (hcapacity : openCount crc16 connections u<10)
    (hsound : u → (popAt junk r true).toNat<10) : ∃ v rest, q u=v::rest := by
  apply exists_cons_of_length_pos
  cases u
  · have hcount := h.queues.first.2.2
    omega
  · have hcount := h.queues.second.1
    have hpop := hsound rfl
    omega

theorem sentToBucket_snd (p p' : Packet) (b : BitVec 16) : (p.sentToBucket T b).2=(p'.sentToBucket T b).2 := by
  unfold sentToBucket
  cases T.getServerFromBucket b <;> rfl
variable {p : Packet}
theorem ingress_fromClient (hp : p.FromClient) : ingress crc16 junk T r p =
      (if p.syn=0 then oldConnection junk T else newConnection junk T) (partition (packetHash crc16 p.hashInput))
      { r with debugHash := packetHash crc16 p.hashInput }
      { p with packetHash := packetHash crc16 p.hashInput } := by
  obtain ⟨hip,hdst,htcp⟩ := hp
  rw [ingress,if_pos hip,if_pos hdst,if_pos htcp]
  dsimp only
  split_ifs <;> rfl

theorem Inv.syn (h : Inv crc16 junk r connections q) (hp : p.FromClient) (hsyn : p.syn=1)
    (hcapacity : openCount crc16 connections (partition (packetHash crc16 p.hashInput))<10)
    (hsound : partition (packetHash crc16 p.hashInput) → (popAt junk r true).toNat<10)
    (server : Option Server) :
    ∃ q', Inv crc16 junk (ingress crc16 junk T r p).1 (connections ++
      [⟨p.hashInput,(ingress crc16 junk T r p).2.tsecrLsb,server,(p.sentToBucket T r.bucketCounter).2,true⟩]) q' := by
  obtain ⟨v,rest,hq⟩ := h.exists_free hcapacity hsound
  have hframe := h.frame (if r.bucketCounter+1=bucketSize then 0 else r.bucketCounter+1) (packetHash crc16 p.hashInput)
  have hv : v.toNat<10 := h.queues.small _ v (by rw [hq]; exact mem_cons_self)
  have hnodup := h.queues.nodup (partition (packetHash crc16 p.hashInput))
  rw [hq] at hnodup
  rw [ingress_fromClient hp,if_neg (by rw [hsyn]; decide),newConnection,sentToBucket_snd _ p]
  rw [(h.frame r.bucketCounter _).queues.nextCookie_eq hq]
  refine ⟨_,?_,hframe.slots.acquire rfl hq (hframe.queues.nextCookie_eq hq) hv hnodup⟩
  rw [openCount_concat rfl rfl]
  exact hframe.queues.acquire hq _ _

theorem sentTo_keeps (p : Packet) (serverId : BitVec 16) :
    (p.sentTo T serverId).fin=p.fin ∧ (p.sentTo T serverId).tsecrLsb=p.tsecrLsb := by
  unfold sentTo
  cases T.getServerFromId serverId <;> exact ⟨rfl,rfl⟩

theorem oldConnection_eq (hcookie : p.tsecrLsb.toNat<10) (hhash : hashAt junk r u p.tsecrLsb.toNat=p.packetHash) :
    oldConnection junk T u r p=(if p.fin=1 then release junk u p.tsecrLsb r else r,
        { p with serverId := serverAt junk r u p.tsecrLsb.toNat }.sentTo T
          (serverAt junk r u p.tsecrLsb.toNat)) := by
  rw [oldConnection]
  dsimp only
  rw [cell_eq u hcookie]
  change (if p.packetHash≠hashAt junk r u p.tsecrLsb.toNat then _ else _)=_
  rw [hhash,if_neg (fun h => h rfl),(sentTo_keeps _ _).1,(sentTo_keeps _ _).2]
  split_ifs <;> rfl

theorem Inv.ingress_open (h : Inv crc16 junk r connections q)
    (hc : connections[i]?=some c) (hopen : c.isOpen) (hp : p.Echoes c) :
    ingress crc16 junk T r p=(if p.fin=1 then release junk (c.second crc16) c.cookie
          { r with debugHash := c.hash crc16 } else { r with debugHash := c.hash crc16 },
        { p with packetHash := c.hash crc16, serverId := c.serverId }.sentTo T c.serverId) := by
  obtain ⟨hclient,hsyn,hinput,hecho⟩ := hp
  obtain ⟨hcookie,-⟩ := h.slots.cookie i c hc hopen
  obtain ⟨hhash,hserver⟩ := (h.frame r.bucketCounter (c.hash crc16)).slots.stored i c hc hopen
  rw [ingress_fromClient hclient,if_pos hsyn,hinput]
  change oldConnection junk T (c.second crc16) { r with debugHash := c.hash crc16 }
    { p with packetHash := c.hash crc16 }=_
  rw [← hecho] at hcookie hhash hserver
  rw [oldConnection_eq (by exact hcookie) (by exact hhash)]
  rw [hserver,hecho]

theorem oldConnection_registers (h : p.fin=1 → r.indexToHash.read junk (p.tsecrLsb+offset u).toNat≠p.packetHash) :
    (oldConnection junk T u r p).1=r := by
  rw [oldConnection]
  dsimp only
  rw [(sentTo_keeps _ _).1,(sentTo_keeps _ _).2]
  split_ifs with hhash hfin
  · rfl
  · exact absurd (not_not.mp hhash).symm (h hfin)
  · rfl

theorem Inv.later (h : Inv crc16 junk r connections q) (hc : connections[i]?=some c) (hp : p.Echoes c)
    (hsound : c.isOpen=false → p.fin=1 →
      r.indexToHash.read junk (c.cookie+offset (c.second crc16)).toNat≠c.hash crc16) :
    ∃ q', Inv crc16 junk (ingress crc16 junk T r p).1
      (if p.fin=1 then connections.set i { c with isOpen := false } else connections) q' := by
  have hframe := h.frame r.bucketCounter (c.hash crc16)
  cases hopen : c.isOpen with
  | true =>
    rw [h.ingress_open hc hopen hp]
    by_cases hfin : p.fin=1
    · rw [if_pos hfin,if_pos hfin]
      obtain ⟨hcookie,hnot⟩ := h.slots.cookie i c hc hopen
      refine ⟨_,?_,hframe.slots.release hc hopen⟩
      rw [openCount_close hc hopen]
      exact hframe.queues.release (openCount_pos hc hopen) hcookie hnot
    · rw [if_neg hfin,if_neg hfin]
      exact ⟨q,hframe⟩
  | false =>
    obtain ⟨hclient,hsyn,hinput,hecho⟩ := hp
    have hclosed : (if p.fin=1 then connections.set i { c with isOpen := false }
        else connections)=connections := by
      obtain ⟨hi,rfl⟩ := List.getElem?_eq_some_iff.mp hc
      rw [← hopen,set_getElem_self,ite_self]
    rw [hclosed,ingress_fromClient hclient,if_pos hsyn,hinput]
    refine ⟨q,?_⟩
    rw [oldConnection_registers]
    · exact hframe
    · rw [hecho]
      exact hsound hopen
variable {s t : System}
theorem step_cases {e : Event} (h : step crc16 junk T s e=some t) : (∃ p, e=.syn p ∧ p.FromClient ∧ p.syn=1 ∧
      t=⟨(ingress crc16 junk T s.registers p).1,s.connections ++
        [⟨p.hashInput,(ingress crc16 junk T s.registers p).2.tsecrLsb,
          (T.getServerFromBucket s.registers.bucketCounter).map Prod.fst,
          (p.sentToBucket T s.registers.bucketCounter).2,true⟩]⟩) ∨
    ∃ i p c, e=.later i p ∧ s.connections[i]?=some c ∧ p.Echoes c ∧ t=⟨(ingress crc16 junk T s.registers p).1,
        if p.fin=1 then s.connections.set i { c with isOpen := false } else s.connections⟩ := by
  cases e with
  | syn p =>
    rw [step] at h
    split_ifs at h with hp
    exact Or.inl ⟨p,rfl,hp.1,hp.2,(some.inj h).symm⟩
  | later i p =>
    rw [step] at h
    cases hc : s.connections[i]? with
    | none =>
      rw [hc] at h
      cases h
    | some c =>
      rw [hc] at h
      dsimp only at h
      by_cases hp : p.Echoes c
      · rw [if_pos hp] at h
        exact Or.inr ⟨i,p,c,rfl,hc,hp,(some.inj h).symm⟩
      · rw [if_neg hp] at h
        cases h

theorem Inv.step {e : Event} (h : ∃ q, Inv crc16 junk s.registers s.connections q)
    (hcapacity : Capacity crc16 s e) (hsound : Sound crc16 junk s e)
    (hstep : step crc16 junk T s e=some t) : ∃ q, Inv crc16 junk t.registers t.connections q := by
  obtain ⟨q,h⟩ := h
  obtain ⟨p,rfl,hp,hsyn,rfl⟩ | ⟨i,p,c,rfl,hc,hp,rfl⟩ := step_cases hstep
  · exact h.syn hp hsyn hcapacity hsound _
  · exact h.later hc hp (hsound c hc)

def Served (T : Tables) (connections : List Connection) : Prop :=
  ∀ c ∈ connections, ∀ server, c.server=some server → T.getServerFromId c.serverId=some server

theorem Served.step (hT : T.Consistent) {e : Event} (h : Served T s.connections)
    (hstep : step crc16 junk T s e=some t) : Served T t.connections := by
  obtain ⟨p,rfl,-,-,rfl⟩ | ⟨i,p,c,rfl,hc,-,rfl⟩ := step_cases hstep
  · intro d hd server hserver
    rcases mem_append.mp hd with hold | hnew
    · exact h d hold server hserver
    · rw [mem_singleton] at hnew
      subst hnew
      obtain ⟨⟨server',serverId⟩,hentry,rfl⟩ := map_eq_some_iff.mp hserver
      rw [sentToBucket,hentry]
      exact hT _ _ _ hentry
  · split_ifs
    · intro d hd
      rcases mem_or_eq_of_mem_set hd with hold | rfl
      · exact h d hold
      · exact h c (mem_of_getElem? hc)
    · exact h

theorem leavesFor_sentTo {server : Server} {serverId : BitVec 16}
    (h : T.getServerFromId serverId=some server) : (p.sentTo T serverId).LeavesFor server := by
  rw [sentTo,h]
  exact ⟨rfl,rfl,rfl⟩

/-- Along every run in which the second partition has not used its indices up, and no connection ends
twice while its old index belongs to a connection with the same hash, the open connections of a
partition have different cookies, and their packets go to the server of their first packet. -/
theorem cookies_distinct_and_served {r : Registers} (hr : Initial junk r)
    {es : List Event} {s : System} (hrun : exec (step crc16 junk T) ⟨r,[]⟩ es=some s)
    (hcapacity : EachStep (step crc16 junk T) (Capacity crc16) ⟨r,[]⟩ es)
    (hsound : EachStep (step crc16 junk T) (Sound crc16 junk) ⟨r,[]⟩ es) :
    (∀ (i j : Nat) (c d : Connection), s.connections[i]?=some c → s.connections[j]?=some d →
      c.isOpen → d.isOpen → c.second crc16=d.second crc16 → c.cookie=d.cookie →
      i=j) ∧
    ∀ c ∈ s.connections, c.isOpen → ∀ p : Packet, p.Echoes c → (ingress crc16 junk T s.registers p).2 =
        { p with packetHash := c.hash crc16, serverId := c.serverId }.sentTo T c.serverId ∧
      (T.Consistent → ∀ server, c.server=some server → (ingress crc16 junk T s.registers p).2.LeavesFor server) := by
  obtain ⟨q,h⟩ := exec_invariant (I := fun s => ∃ q, Inv crc16 junk s.registers s.connections q)
    (fun s e t h hcond hstep => Inv.step h hcond.1 hcond.2 hstep)
    ⟨_,Inv.initial hr⟩ hrun (hcapacity.and hsound)
  refine ⟨h.slots.distinct,?_⟩
  intro c hc hopen p hp
  obtain ⟨i,hi⟩ := mem_iff_getElem?.mp hc
  rw [h.ingress_open hi hopen hp]
  refine ⟨rfl,?_⟩
  intro hT server hserver
  have hserved := exec_invariant (I := fun s => Served T s.connections)
    (fun s e t h _ hstep => h.step hT hstep) (by simp [Served]) hrun hcapacity
  exact leavesFor_sentTo (hserved c hc server hserver)
end

def startRegisters : Registers where
  bucketCounter := 0
  debugHash := 0
  indexToHash := filled 0
  indexToServerId := filled 0
  freeIndices := fun i => .ofNat 16 (i%10)
  pushIndex := filled 0
  popIndex := filled 0

def oneServer : Tables where
  getServerFromBucket _ := some (⟨2,0x0a000002,0x00000a000002⟩,7)
  getServerFromId serverId := if serverId=7 then some ⟨2,0x0a000002,0x00000a000002⟩ else none

def clientPacket (srcPort : BitVec 16) (syn fin : BitVec 1) (cookie : BitVec 16) : Packet where
  ipv4Valid := true
  srcAddr := 0x0a000001
  dstAddr := vip
  protocol := 6
  tcpValid := true
  srcPort := srcPort
  dstPort := 80
  syn := syn
  fin := fin
  tsecrLsb := cookie
  ethernetDst := 0
  egressSpec := 0
  bucketId := 0
  packetHash := 0
  serverId := 0

def shortRun : List Event :=
  [.syn (clientPacket 1000 1 0 0),.syn (clientPacket 1002 1 0 0),
    .later 0 (clientPacket 1000 0 1 0),.syn (clientPacket 1004 1 0 0)]

def portHash (x : HashInput) : BitVec 16 := x.tcpPortTwo

theorem shortRun_served : ∃ s, exec (step portHash (fun _ => 0) oneServer) ⟨startRegisters,[]⟩ shortRun=some s ∧
    s.connections.map (fun c => (c.cookie,c.isOpen))=[(0,false),(1,true),(2,true)] ∧
    ∀ c ∈ s.connections, c.isOpen → ∀ p : Packet, p.Echoes c →
      (ingress portHash (fun _ => 0) oneServer s.registers p).2 =
        { p with packetHash := c.hash portHash, serverId := c.serverId }.sentTo oneServer
          c.serverId := by
  obtain ⟨s,hrun,hconnections⟩ := map_eq_some_iff.mp
    (show (exec (step portHash (fun _ => 0) oneServer) ⟨startRegisters,[]⟩ shortRun).map
      (fun s => s.connections.map fun c => (c.cookie,c.isOpen)) = some [(0,false),(1,true),(2,true)] by decide +kernel)
  have hall := cookies_distinct_and_served (by decide) hrun (by decide +kernel) (by decide +kernel)
  exact ⟨s,hrun,hconnections,fun c hc hopen p hp => (hall.2 c hc hopen p hp).1⟩

def longRun : List Event :=
  ((List.range 10).map fun i => .syn (clientPacket (.ofNat 16 (1001+2*i)) 1 0 0)) ++
    [.later 8 (clientPacket 1017 0 1 8),.later 9 (clientPacket 1019 0 1 9),
      .syn (clientPacket 1021 1 0 0),.syn (clientPacket 1023 1 0 0)]

/-- The last two connections both read the cell behind the array. -/
theorem cookie_shared : Initial (fun _ => 0) startRegisters ∧
    EachStep (step portHash (fun _ => 0) oneServer) (Capacity portHash) ⟨startRegisters,[]⟩ longRun ∧
    ∃ s, exec (step portHash (fun _ => 0) oneServer) ⟨startRegisters,[]⟩ longRun=some s ∧
      s.connections.map (fun c => (c.second portHash,c.isOpen,c.cookie)) =
        [(true,true,0),(true,true,1),(true,true,2),(true,true,3),(true,true,4),
          (true,true,5),(true,true,6),(true,true,7),(true,false,8),(true,false,9),
          (true,true,0),(true,true,0)] := by
  exact ⟨by decide,by decide +kernel,map_eq_some_iff.mp (by decide +kernel)⟩
end P4Benchmarks.Cheetah
