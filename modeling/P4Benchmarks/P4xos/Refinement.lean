import P4Benchmarks.Lib.Paxos
import P4Benchmarks.P4xos.Network
/-! # The acceptors and proposers implement abstract Paxos -/
namespace P4Benchmarks.P4xos
open Lib Option Function
attribute [local simp] Register.write_apply
def majorities : Set (Set (Fin 3)) := {q | ∃ a ∈ q, ∃ b ∈ q, a≠b}

theorem majorities_intersect : ∀ q ∈ majorities, ∀ q' ∈ majorities, (q ∩ q').Nonempty := by
  rintro q ⟨a,ha,b,hb,hab⟩ q' ⟨c,hc,e,he,hce⟩
  have hmeet : a=c ∨ a=e ∨ b=c ∨ b=e := by omega
  rcases hmeet with rfl | rfl | rfl | rfl
  · exact ⟨a,ha,hc⟩
  · exact ⟨a,ha,he⟩
  · exact ⟨b,hb,hc⟩
  · exact ⟨b,hb,he⟩

def voteOf (vrnd : BitVec 16) (v : BitVec 256) : Option (ℕ × BitVec 256) :=
  if vrnd=0 then none else some (vrnd.toNat,v)

theorem voteOf_of_ne {vrnd : BitVec 16} (h : vrnd≠0) (v : BitVec 256) : voteOf vrnd v=some (vrnd.toNat,v) :=
  if_neg h

theorem voteOf_eq_some {vrnd : BitVec 16} {v w : BitVec 256} {c : ℕ}
    (h : voteOf vrnd v=some (c,w)) : c=vrnd.toNat ∧ w=v := by
  unfold voteOf at h
  split_ifs at h
  simpa [eq_comm] using h

abbrev Ledger := Paxos.State (Fin 3) (BitVec 256)

structure Recorded (t : Ledger) (p : Paxos) : Prop where
  report : p.msgtype=paxos1B → ∃ a : Fin 3, p.acptid=.ofNat 16 a ∧ (a,p.rnd.toNat,voteOf p.vrnd p.paxosval) ∈ t.report
  proposed : p.msgtype=paxos2A → p.rnd≠0 ∧ (p.rnd.toNat,p.paxosval) ∈ t.proposed
  vote : p.msgtype=paxos2B → ∃ a : Fin 3, p.acptid=.ofNat 16 a ∧ (a,p.rnd.toNat,p.paxosval) ∈ t.vote

theorem Recorded.mono {t u : Ledger} (h : t.Extends u) {p : Paxos} (hp : Recorded t p) : Recorded u p where
  report hty := by
    obtain ⟨a,ha,hmem⟩ := hp.report hty
    exact ⟨a,ha,h.report hmem⟩
  proposed hty := ⟨(hp.proposed hty).1,h.proposed (hp.proposed hty).2⟩
  vote hty := by
    obtain ⟨a,ha,hmem⟩ := hp.vote hty
    exact ⟨a,ha,h.vote hmem⟩

structure Mirrors (i : Fin instanceCount) (t : Ledger) (a : Fin 3) (regs : Acceptor.Registers) : Prop where
  acceptorID : regs.registerAcceptorID 0=.ofNat 16 a
  promised : t.promised a=(regs.registerRound i).toNat
  lastVote : t.lastVote a=voteOf (regs.registerVRound i) (regs.registerValue i)
variable {P : Type}
structure Simulates (d : Deployment P) (i : Fin instanceCount) (s : State P) (t : Ledger) : Prop where
  reachable : Paxos.Reachable majorities t
  acceptors : ∀ a, Mirrors i t a (s.acceptors a)
  net : ∀ hdr ∈ s.net, ∀ p, hdr.paxos=some p → p.inst.toNat=i → Recorded t p
  proposals : ∀ r v, (r,v) ∈ t.proposed → ∃ rnd : BitVec 16, rnd.toNat=r ∧
    (s.proposers (d.owner rnd)).proposal (.ofNat 32 i) rnd=some v

theorem simulates_init (d : Deployment P) (i : Fin instanceCount) : Simulates d i (State.init d) Paxos.State.empty where
  reachable := .init
  acceptors a := ⟨d.acceptorID_eq a,rfl,rfl⟩
  net := by simp [State.init]
  proposals := by simp [Paxos.State.empty]
variable {d : Deployment P} {i : Fin instanceCount} {s : State P} {t : Ledger}
theorem Simulates.send (h : Simulates d i s t) (hdr : Headers)
    (hrec : ∀ p, hdr.paxos=some p → p.inst.toNat=i → Recorded t p) :
    Simulates d i { s with net := hdr::s.net } t where
  __ := h
  net := by
    intro hdr' hmem
    rcases List.mem_cons.mp hmem with rfl | hold
    · exact hrec
    · exact h.net hdr' hold

theorem Simulates.send1a (h : Simulates d i s t) {p : P} {hdr : Headers} (hmay : hdr.Carries (May1a d p)) :
    Simulates d i { s with net := hdr::s.net } t := by
  obtain ⟨m,hm,hty,-⟩ := hmay
  refine h.send hdr fun p' hp' _ => ?_
  obtain rfl : m=p' := some.inj (hm.symm.trans hp')
  constructor <;> simp [hty,paxos1A,paxos1B,paxos2A,paxos2B]

theorem Proposer.record_proposal {self : Proposer} {m : Paxos} {inst : BitVec 32} {rnd : BitVec 16} {v : BitVec 256}
    (hone : self.proposal m.inst m.rnd=none ∨ self.proposal m.inst m.rnd=some m.paxosval)
    (hv : self.proposal inst rnd=some v) : (self.record m).proposal inst rnd=some v := by
  unfold Proposer.record
  dsimp only
  split_ifs with hsame
  · obtain ⟨rfl,rfl⟩ := hsame
    simpa [hv,eq_comm] using hone
  · exact hv

theorem ofNat_of_toNat_eq {m : Paxos} (h : m.inst.toNat=i) : .ofNat 32 i=m.inst := by
  rw [← h,BitVec.ofNat_toNat,BitVec.setWidth_eq]

theorem picks_of_picksHighest {m b b' : Paxos} (hb : Recorded t b) (hb' : Recorded t b') (hans : Answers b m)
    (hans' : Answers b' m) (hne : b.acptid≠b'.acptid) (hpick : PicksHighest b b' m.paxosval) :
    ∃ q ∈ majorities, ∃ rep, (∀ a ∈ q, (a,m.rnd.toNat,rep a) ∈ t.report) ∧ Paxos.Picks q rep m.paxosval := by
  obtain ⟨hty,-,hrnd⟩ := hans
  obtain ⟨hty',-,hrnd'⟩ := hans'
  obtain ⟨a,ha,hrep⟩ := hb.report hty
  obtain ⟨a',ha',hrep'⟩ := hb'.report hty'
  have haa' : a'≠a := by
    rintro rfl
    exact hne (ha.trans ha'.symm)
  rw [hrnd] at hrep
  rw [hrnd'] at hrep'
  let rep : Fin 3 → Option (ℕ × BitVec 256) := fun x =>
    if x=a then voteOf b.vrnd b.paxosval else voteOf b'.vrnd b'.paxosval
  have hra : rep a=voteOf b.vrnd b.paxosval := if_pos rfl
  have hra' : rep a'=voteOf b'.vrnd b'.paxosval := if_neg haa'
  refine ⟨{a, a'},⟨a,by simp,a',by simp,haa'.symm⟩,rep,?_,?_⟩
  · rintro x (rfl | rfl)
    · rwa [hra]
    · rwa [hra']
  · rcases hpick with ⟨h0,h0'⟩ | ⟨hpos,hle,hv⟩ | ⟨hpos,hle,hv⟩
    · left
      rintro x (rfl | rfl)
      · rw [hra,voteOf,if_pos h0]
      · rw [hra',voteOf,if_pos h0']
    · refine .inr ⟨a,by simp,b.vrnd.toNat,by rw [hra,voteOf_of_ne hpos,hv],?_⟩
      rintro x (rfl | rfl) c w hc
      · rw [hra] at hc
        rw [(voteOf_eq_some hc).1]
      · rw [hra'] at hc
        rw [(voteOf_eq_some hc).1]
        exact hle
    · refine .inr ⟨a',by simp,b'.vrnd.toNat,by rw [hra',voteOf_of_ne hpos,hv],?_⟩
      rintro x (rfl | rfl) c w hc
      · rw [hra] at hc
        rw [(voteOf_eq_some hc).1]
        exact hle
      · rw [hra'] at hc
        rw [(voteOf_eq_some hc).1]

theorem Simulates.recordProposal [DecidableEq P] (h : Simulates d i s t) (p : P) (m : Paxos)
    (hone : (s.proposers p).proposal m.inst m.rnd=none ∨ (s.proposers p).proposal m.inst m.rnd=some m.paxosval) :
    Simulates d i { s with
      proposers := update s.proposers p ((s.proposers p).record m) } t where
  __ := h
  proposals := by
    intro r v hrv
    obtain ⟨rnd,hr,hprop⟩ := h.proposals r v hrv
    refine ⟨rnd,hr,?_⟩
    by_cases hq : d.owner rnd=p
    · rw [hq] at hprop
      simpa [hq] using Proposer.record_proposal hone hprop
    · simpa [hq] using hprop

theorem Simulates.propose (h : Simulates d i s t) {rnd : BitVec 16} {v : BitVec 256} {q : Set (Fin 3)}
    {rep : Fin 3 → Option (ℕ × BitVec 256)} (hq : q ∈ majorities) (hrep : ∀ a ∈ q, (a,rnd.toNat,rep a) ∈ t.report)
    (hpick : Paxos.Picks q rep v) (hown : (s.proposers (d.owner rnd)).proposal (.ofNat 32 i) rnd=some v) :
    ∃ u, t.Extends u ∧ (rnd.toNat,v) ∈ u.proposed ∧ Simulates d i s u := by
  have honce : ∀ w, (rnd.toNat,w) ∈ t.proposed → w=v := by
    intro w hw
    obtain ⟨rnd',hr,hprop⟩ := h.proposals _ w hw
    obtain rfl : rnd'=rnd := BitVec.eq_of_toNat_eq hr
    exact some.inj (hprop.symm.trans hown)
  have hstep := Paxos.Step.propose t rnd.toNat v q rep hq hrep hpick honce
  refine ⟨_,hstep.extends,Set.mem_insert _ _,h.reachable.step hstep,?_,?_,?_⟩
  · exact fun a => ⟨(h.acceptors a).1,(h.acceptors a).2,(h.acceptors a).3⟩
  · exact fun hdr hmem p hp hi => (h.net hdr hmem p hp hi).mono hstep.extends
  · rintro r w (heq | hold)
    · cases heq
      exact ⟨rnd,rfl,hown⟩
    · exact h.proposals r w hold

theorem Simulates.send2a [DecidableEq P] (h : Simulates d i s t) {p : P} {hdr reply reply' : Headers} {m b b' : Paxos}
    (hm : hdr.paxos=some m) (hb : reply.paxos=some b) (hb' : reply'.paxos=some b')
    (hreply : reply ∈ s.net) (hreply' : reply' ∈ s.net)
    (hmay : May2a d p (s.proposers p) m b b') :
    ∃ u, t.Extends u ∧ Simulates d i { s with
      proposers := update s.proposers p ((s.proposers p).record m)
      net := hdr::s.net } u := by
  obtain ⟨hty,hrnd,howner,hans,hans',hne,hpick,hone⟩ := hmay
  have hrecorded := h.recordProposal p m hone
  by_cases hinst : m.inst.toNat=i
  · have hrec := h.net reply hreply b hb (by rw [hans.2.1,hinst])
    have hrec' := h.net reply' hreply' b' hb' (by rw [hans'.2.1,hinst])
    obtain ⟨q,hq,rep,hrep,hpicks⟩ := picks_of_picksHighest hrec hrec' hans hans' hne hpick
    obtain ⟨u,hext,hmem,hu⟩ := hrecorded.propose hq hrep hpicks
      (by simp [howner,ofNat_of_toNat_eq hinst,Proposer.record])
    refine ⟨u,hext,hu.send hdr fun p' hp' _ => ?_⟩
    obtain rfl : m=p' := some.inj (hm.symm.trans hp')
    exact ⟨by simp [hty,paxos2A,paxos1B],fun _ => ⟨hrnd,hmem⟩,by simp [hty,paxos2A,paxos2B]⟩
  · -- a proposal for another instance is invisible here
    refine ⟨t,.refl t,hrecorded.send hdr fun p' hp' hinst' => ?_⟩
    obtain rfl : m=p' := some.inj (hm.symm.trans hp')
    exact absurd hinst' hinst

theorem Mirrors.congr {a : Fin 3} {regs regs' : Acceptor.Registers} (h : Mirrors i t a regs)
    (hid : regs'.registerAcceptorID=regs.registerAcceptorID)
    (hround : regs'.registerRound i=regs.registerRound i)
    (hvround : regs'.registerVRound i=regs.registerVRound i)
    (hvalue : regs'.registerValue i=regs.registerValue i) : Mirrors i t a regs' where
  acceptorID := by rw [hid,h.acceptorID]
  promised := by rw [hround,h.promised]
  lastVote := by rw [hvround,hvalue,h.lastVote]

theorem Simulates.updateAcceptor {t u : Ledger} (h : Simulates d i s t) (a : Fin 3) (regs : Acceptor.Registers)
    (hreach : Paxos.Reachable majorities u) (hext : t.Extends u)
    (hself : Mirrors i u a regs) (hprop : u.proposed=t.proposed)
    (hother : ∀ b≠a, u.promised b=t.promised b ∧ u.lastVote b=t.lastVote b) :
    Simulates d i { s with acceptors := update s.acceptors a regs } u where
  reachable := hreach
  acceptors b := by
    by_cases hb : b=a
    · subst hb
      simpa using hself
    · have hold := h.acceptors b
      simp only [Function.update_of_ne hb]
      exact ⟨hold.acceptorID,(hother b hb).1.trans hold.promised,(hother b hb).2.trans hold.lastVote⟩
  net hdr hmem p hp hi := (h.net hdr hmem p hp hi).mono hext
  proposals := by
    rw [hprop]
    exact h.proposals

/-- The acceptor has the registers and the answer `r` for `p`, and the abstract protocol has followed. -/
def Answered (d : Deployment P) (i : Fin instanceCount) (s : State P) (t : Ledger) (a : Fin 3) (p : Paxos)
    (r : Acceptor.Registers × Paxos) : Prop :=
  ∃ u, t.Extends u ∧ (p.inst.toNat=i → Recorded u r.2) ∧
    Simulates d i { s with acceptors := update s.acceptors a r.1 } u
section
variable {junk : Unspecified} {a : Fin 3} {p : Paxos} (h : Simulates d i s t)
  (hround : (s.acceptors a).registerRound.read junk p.inst.toNat≤p.rnd)
include h hround
theorem Simulates.answered {r : Acceptor.Registers × Paxos} (hother : p.inst.toNat≠i → Mirrors i t a r.1)
    (hthis : p.inst.toNat=i → t.promised a≤p.rnd.toNat → ∃ u, Paxos.Step majorities t u ∧ Recorded u r.2 ∧
      Mirrors i u a r.1 ∧ u.proposed=t.proposed ∧ ∀ b≠a, u.promised b=t.promised b ∧ u.lastVote b=t.lastVote b) :
    Answered d i s t a p r := by
  by_cases hinst : p.inst.toNat=i
  · rw [hinst,Register.read_val] at hround
    have hle : t.promised a≤p.rnd.toNat := by
      rw [(h.acceptors a).promised]
      exact hround
    obtain ⟨u,hstep,hrec,hself,hprop,hsame⟩ := hthis hinst hle
    exact ⟨u,hstep.extends,fun _ => hrec, h.updateAcceptor a _ (h.reachable.step hstep) hstep.extends hself hprop hsame⟩
  · exact ⟨t,.refl t,fun hi => absurd hi hinst,
      h.updateAcceptor a _ h.reachable (.refl t) (hother hinst) rfl fun _ _ => ⟨rfl,rfl⟩⟩

theorem Simulates.handle1a : Answered d i s t a p (Acceptor.handle1a junk (s.acceptors a) p) := by
  have hold := h.acceptors a
  refine h.answered hround (fun hinst => ?_) fun hinst hle => ⟨_,.promise t a p.rnd.toNat hle,?_,?_,rfl,?_⟩
  · exact hold.congr rfl (by simp [Acceptor.handle1a,Ne.symm hinst]) rfl rfl
  · constructor
    · intro _
      refine ⟨a,?_,.inl ?_⟩
      · simpa [Acceptor.handle1a,Register.read] using hold.acceptorID
      · simp [Acceptor.handle1a,hinst,hold.lastVote]
    · simp [Acceptor.handle1a,paxos1B,paxos2A]
    · simp [Acceptor.handle1a,paxos1B,paxos2B]
  · refine ⟨hold.acceptorID,?_,hold.lastVote⟩
    simp [Acceptor.handle1a,hinst]
  · intro b hb
    simp [hb]

theorem Simulates.handle2a (hprop : p.inst.toNat=i → p.rnd≠0 ∧ (p.rnd.toNat,p.paxosval) ∈ t.proposed) :
    Answered d i s t a p (Acceptor.handle2a junk (s.acceptors a) p) := by
  have hold := h.acceptors a
  refine h.answered hround (fun hinst => ?_) fun hinst hle =>
    ⟨_,.accept t a p.rnd.toNat p.paxosval (hprop hinst).2 hle,?_,?_,rfl,?_⟩
  · refine hold.congr rfl ?_ ?_ ?_ <;>
      simp [Acceptor.handle2a,Ne.symm hinst]
  · constructor
    · simp [Acceptor.handle2a,paxos2B,paxos1B]
    · simp [Acceptor.handle2a,paxos2B,paxos2A]
    · intro _
      refine ⟨a,?_,.inl rfl⟩
      simpa [Acceptor.handle2a,Register.read] using hold.acceptorID
  · refine ⟨hold.acceptorID,?_,?_⟩
    · simp [Acceptor.handle2a,hinst]
    · simp [Acceptor.handle2a,hinst,voteOf_of_ne (hprop hinst).1]
  · intro b hb
    simp [hb]
end

theorem Simulates.acceptor (h : Simulates d i s t) (junk : Unspecified) (a : Fin 3) (std : StandardMetadata)
    {hdr : Headers} (hnet : hdr ∈ s.net) :
    let out := Acceptor.ingress junk (d.acceptor a) (s.acceptors a) hdr std
    ∃ u, t.Extends u ∧ Simulates d i { s with
      acceptors := update s.acceptors a out.1
      net := if out.2.2.leaves then out.2.1::s.net else s.net } u := by
  intro out
  -- it is enough to know the new registers and that the outgoing message is recorded
  suffices hsuff : ∃ u, t.Extends u ∧ (∀ p', out.2.1.paxos=some p' → p'.inst.toNat=i → Recorded u p') ∧
      Simulates d i { s with acceptors := update s.acceptors a out.1 } u by
    obtain ⟨u,hext,hrec,hu⟩ := hsuff
    refine ⟨u,hext,?_⟩
    split_ifs
    · exact hu.send out.2.1 hrec
    · exact hu
  have answer {p p' : Paxos} {u : Ledger} (hout : out.2.1.paxos=some p')
      (hinst : p'.inst=p.inst) (hrec : p.inst.toNat=i → Recorded u p') :
      ∀ p'', out.2.1.paxos=some p'' → p''.inst.toNat=i → Recorded u p'' := by
    intro p'' hp'' hi
    obtain rfl : p'=p'' := some.inj (hout.symm.trans hp'')
    exact hrec (hinst ▸ hi)
  rcases Acceptor.ingress_cases junk (d.acceptor a) (s.acceptors a) hdr std with
    ⟨hregs,hpax⟩ | ⟨p,hp,hround,⟨-,hregs,hpax⟩ | ⟨hty,hregs,hpax⟩⟩
  · refine ⟨t,.refl t,fun p' hp' hi => h.net hdr hnet p' (hpax.symm.trans hp') hi,?_⟩
    rw [hregs,Function.update_eq_self]
    exact h
  · obtain ⟨u,hext,hrec,hu⟩ := h.handle1a hround
    rw [hregs]
    exact ⟨u,hext,answer hpax rfl hrec,hu⟩
  · obtain ⟨u,hext,hrec,hu⟩ := h.handle2a hround fun hi =>
      (h.net hdr hnet p hp hi).proposed hty
    rw [hregs]
    exact ⟨u,hext,answer hpax rfl hrec,hu⟩
end P4Benchmarks.P4xos
