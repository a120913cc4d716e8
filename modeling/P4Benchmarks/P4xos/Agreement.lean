import P4Benchmarks.P4xos.Refinement
/-!
# Agreement at the learner

The history bitmap of the learner belongs to the highest round, but the quorum test is also
evaluated for packets of older rounds, which need not carry the chosen value.
-/
namespace P4Benchmarks.P4xos
open Lib BitVec Option Register State Learner
def HistoryVotes (i : Fin instanceCount) (regs : Learner.Registers) (t : Ledger) : Prop :=
  ∀ k, (regs.registerHistory2B i).getLsbD k → ∃ a : Fin 3, a.val=k ∧ ∃ v, (a,(regs.registerRound i).toNat,v) ∈ t.vote
variable {i : Fin instanceCount} {regs : Learner.Registers}
theorem HistoryVotes.mono {t u : Ledger} (hext : t.Extends u) (h : HistoryVotes i regs t) : HistoryVotes i regs u := by
  intro k hk
  obtain ⟨a,ha,v,hv⟩ := h k hk
  exact ⟨a,ha,v,hext.vote hv⟩

theorem acptidBit_getLsbD {p : Paxos} {a : Fin 3} (h : p.acptid=.ofNat 16 a) (k : ℕ)
    (hk : (acptidBit p).getLsbD k) : a.val=k := by
  have hshift : ((BitVec.ofNat 16 a).truncate 8).toNat=a.val := by
    rw [truncate_eq_setWidth,toNat_setWidth,toNat_ofNat]
    omega
  rw [acptidBit,h,hshift,getLsbD_shiftLeft,getLsbD_one] at hk
  simp only [Bool.and_eq_true,decide_eq_true_eq,Bool.not_eq_true',decide_eq_false_iff_not] at hk
  omega

theorem two_bits_of_isQuorum {hist : BitVec 8} (h : isQuorum hist) : ∃ j k, j≠k ∧ hist.getLsbD j ∧ hist.getLsbD k := by
  simp only [isQuorum,Bool.or_eq_true,beq_iff_eq] at h
  rcases h with (rfl | rfl) | rfl
  · exact ⟨1,2,by decide⟩
  · exact ⟨0,2,by decide⟩
  · exact ⟨0,1,by decide⟩
variable {t : Ledger}
theorem chosen_of_isQuorum (ht : Paxos.Sound majorities t) (hhist : HistoryVotes i regs t)
    (hq : isQuorum (regs.registerHistory2B i)) :
    ∃ v, Paxos.Chosen majorities t (regs.registerRound i).toNat v := by
  obtain ⟨j,k,hjk,hj,hk⟩ := two_bits_of_isQuorum hq
  obtain ⟨a,rfl,v,hv⟩ := hhist j hj
  obtain ⟨b,rfl,w,hw⟩ := hhist k hk
  obtain rfl : v=w := ht.proposed_unique _ v w (ht.vote_proposed a _ v hv) (ht.vote_proposed b _ w hw)
  refine ⟨v,{a, b},⟨a,by simp,b,by simp,fun hab => hjk (by rw [hab])⟩,?_⟩
  rintro x (rfl | rfl)
  · exact hv
  · exact hw

theorem HistoryVotes.recordVote (h : HistoryVotes i regs t) (junk : Unspecified) (p : Paxos) (hvote : p.inst.toNat=i →
      ∃ a : Fin 3, p.acptid=.ofNat 16 a ∧ (a,p.rnd.toNat,p.paxosval) ∈ t.vote) :
    HistoryVotes i (Learner.recordVote junk regs p).1 t := by
  by_cases hinst : p.inst.toNat=i
  · obtain ⟨a,ha,hmem⟩ := hvote hinst
    simp only [Learner.recordVote,readRound,hinst,read_val]
    split_ifs with hnew hsame
    · intro k hk
      simp only [handleNewValue,write_apply,hinst,if_true] at hk ⊢
      exact ⟨a,acptidBit_getLsbD ha k hk,_,hmem⟩
    · intro k hk
      simp only [handle2b,write_apply,hinst,if_true,getLsbD_or,Bool.or_eq_true] at hk ⊢
      rcases hk with hold | hbit
      · rw [hsame]
        exact h k hold
      · exact ⟨a,acptidBit_getLsbD ha k hbit,_,hmem⟩
    · exact h
  · have hframe : (Learner.recordVote junk regs p).1.registerRound i=regs.registerRound i ∧
        (Learner.recordVote junk regs p).1.registerHistory2B i=regs.registerHistory2B i := by
      unfold Learner.recordVote
      dsimp only
      split_ifs <;> simp [handleNewValue,handle2b,write_apply,Ne.symm hinst]
    unfold HistoryVotes
    rw [hframe.1,hframe.2]
    exact h

theorem chosen_of_delivers (ht : Paxos.Sound majorities t) (hhist : HistoryVotes i regs t) (junk : Unspecified)
    (p : Paxos) (hinst : p.inst.toNat=i) {a : Fin 3} (ha : p.acptid=.ofNat 16 a)
    (hvote : (a,p.rnd.toNat,p.paxosval) ∈ t.vote)
    (hfresh : ¬ (p.rnd < regs.registerRound i ∧ isQuorum (regs.registerHistory2B i)))
    (hq : isQuorum (Learner.recordVote junk regs p).2.ackAcceptors) :
    ∃ r, Paxos.Chosen majorities t r p.paxosval := by
  have hprop := ht.vote_proposed a _ _ hvote
  have hhist' := hhist.recordVote junk p fun _ => ⟨a,ha,hvote⟩
  simp only [Learner.recordVote,readRound,hinst,read_val] at hq hhist'
  split_ifs at hq hhist' with hnew hsame
  · -- a newer round: the test sees the votes of the old round, whose value was chosen there
    obtain ⟨v,hv⟩ := chosen_of_isQuorum ht hhist hq
    have hle : (regs.registerRound i).toNat≤p.rnd.toNat := le_of_lt hnew
    rw [ht.proposed_of_chosen majorities_intersect hv hprop hle]
    exact ⟨_,hv⟩
  · -- the same round: the updated history is written back before the test
    have hq' : isQuorum ((handle2b regs p ⟨regs.registerRound i,1,
        regs.registerHistory2B i⟩).1.registerHistory2B i) := by
      simpa [handle2b,write_apply,hinst] using hq
    obtain ⟨v,hv⟩ := chosen_of_isQuorum ht hhist' hq'
    have hle : ((handle2b regs p ⟨regs.registerRound i,1,
        regs.registerHistory2B i⟩).1.registerRound i).toNat≤p.rnd.toNat := by
      simp [handle2b,write_apply,hinst]
    rw [ht.proposed_of_chosen majorities_intersect hv hprop hle]
    exact ⟨_,hv⟩
  · have hlt : p.rnd < regs.registerRound i := by
      simp only [gt_iff_lt,lt_def,not_lt] at hnew ⊢
      exact lt_of_le_of_ne hnew fun h => hsame (eq_of_toNat_eq h)
    exact absurd ⟨hlt,hq⟩ hfresh
variable {P : Type} [DecidableEq P]
/-- The whole deployment follows an abstract run, and the learner delivered chosen values only. -/
structure Tracks (d : Deployment P) (i : Fin instanceCount) (s : State P) (t : Ledger) : Prop where
  simulates : Simulates d i s t
  history : HistoryVotes i s.learner t
  delivered : ∀ hdr ∈ s.delivered, ∀ p, hdr.paxos=some p → p.inst.toNat=i → ∃ r, Paxos.Chosen majorities t r p.paxosval
variable {d : Deployment P}
omit [DecidableEq P] in
theorem Tracks.advance {s s' : State P} {t u : Ledger}
    (h : Tracks d i s t) (hext : t.Extends u) (hsim : Simulates d i s' u)
    (hlearner : s'.learner=s.learner) (hdel : s'.delivered=s.delivered) :
    Tracks d i s' u where
  simulates := hsim
  history := by
    rw [hlearner]
    exact h.history.mono hext
  delivered := by
    rw [hdel]
    intro hdr hmem p hp hi
    obtain ⟨r,hr⟩ := h.delivered hdr hmem p hp hi
    exact ⟨r,hr.mono hext.vote⟩
omit [DecidableEq P] in
theorem Tracks.learner {s : State P} (h : Tracks d i s t) (junk : Unspecified) (std : StandardMetadata) {hdr : Headers}
    (hnet : hdr ∈ s.net) {p : Paxos} (hp : hdr.paxos=some p) (hty : p.msgtype=paxos2B)
    (hfresh : ¬ (p.inst.toNat=i ∧ p.rnd < s.learner.registerRound i ∧ isQuorum (s.learner.registerHistory2B i))) :
    let out := ingress junk d.transport s.learner hdr std
    Tracks d i { s with
      learner := out.regs
      delivered := if out.delivers then hdr::s.delivered else s.delivered } t := by
  have ht := h.simulates.reachable.sound
  have hvote (hi : p.inst.toNat=i) := (h.simulates.net hdr hnet p hp hi).vote hty
  intro out
  have hout : out.regs=s.learner ∧ out.delivers=false ∨ out.regs=(Learner.recordVote junk s.learner p).1 ∧
        out.delivers=isQuorum (Learner.recordVote junk s.learner p).2.ackAcceptors := by
    simp only [out,ingress,hp]
    cases hdr.ipv4 with
    | none => exact .inl ⟨rfl,rfl⟩
    | some ip =>
      right
      dsimp only
      split_ifs with hq <;> simp [hq]
  rcases hout with ⟨hregs,hno⟩ | ⟨hregs,hdel⟩
  · simpa [hregs,hno] using h
  · constructor
    case simulates => exact ⟨h.simulates.1,h.simulates.2,h.simulates.3,h.simulates.4⟩
    case history =>
      rw [hregs]
      exact h.history.recordVote junk p hvote
    case delivered =>
      intro hdr' hmem p' hp' hi
      split_ifs at hmem with hq
      · rcases List.mem_cons.mp hmem with rfl | hold
        · obtain rfl : p=p' := some.inj (hp.symm.trans hp')
          obtain ⟨a,ha,hmemv⟩ := hvote hi
          exact chosen_of_delivers ht h.history junk p hi ha hmemv (fun hst => hfresh ⟨hi,hst⟩) (hdel ▸ hq)
        · exact h.delivered hdr' hold p' hp' hi
      · exact h.delivered hdr' hmem p' hp' hi

theorem Tracks.step {s s' : State P} (h : Tracks d i s t) {a : Action P} (hfresh : ¬ StaleAtQuorum i s a)
    (hstep : step d s a=some s') : ∃ u, Tracks d i s' u := by
  cases a with
  | send1a p hdr =>
    simp only [P4xos.step,ite_none_right_eq_some,some.injEq] at hstep
    obtain ⟨hmay,rfl⟩ := hstep
    exact ⟨t,h.advance (.refl t) (h.simulates.send1a hmay) rfl rfl⟩
  | send2a p hdr reply reply' =>
    simp only [P4xos.step] at hstep
    split at hstep
    · rename_i m b b' hm hb hb'
      simp only [ite_none_right_eq_some,some.injEq] at hstep
      obtain ⟨⟨hreply,hreply',hmay⟩,rfl⟩ := hstep
      obtain ⟨u,hext,hu⟩ := h.simulates.send2a hm hb hb' hreply hreply' hmay
      exact ⟨u,h.advance hext hu rfl rfl⟩
    · cases hstep
  | acceptor a hdr port junk =>
    simp only [P4xos.step,ite_none_right_eq_some,some.injEq] at hstep
    obtain ⟨hnet,rfl⟩ := hstep
    obtain ⟨u,hext,hu⟩ := h.simulates.acceptor junk a (.arriving port) hnet
    exact ⟨u,h.advance hext hu rfl rfl⟩
  | learner hdr port junk =>
    simp only [P4xos.step,ite_none_right_eq_some,some.injEq] at hstep
    obtain ⟨⟨hnet,p,hp,hty⟩,rfl⟩ := hstep
    exact ⟨t,h.learner junk (.arriving port) hnet hp hty fun hst => hfresh ⟨p,hp,hst⟩⟩
omit [DecidableEq P] in
theorem Tracks.deliveredAgree {s : State P} (h : Tracks d i s t) : DeliveredAgree i s := by
  intro hdr hmem hdr' hmem' p p' hp hp' hi hi'
  obtain ⟨r,hr⟩ := h.delivered hdr hmem p hp hi
  obtain ⟨r',hr'⟩ := h.delivered hdr' hmem' p' hp' hi'
  exact h.simulates.reachable.sound.chosen_unique majorities_intersect hr hr'

/-- In every run in which the learner never tests a stale packet against a recorded quorum of its

instance, all packets delivered for the instance carry the same value. -/
theorem deliveredAgree_of_fresh (d : Deployment P) (i : Fin instanceCount) (as : List (Action P))
    (s : State P) (hrun : exec (step d) (init d) as=some s)
    (hfresh : EachStep (step d) (fun s a => ¬ StaleAtQuorum i s a) (init d) as) :
    DeliveredAgree i s := by
  have hinit : ∃ t, Tracks d i (init d) t :=
    ⟨.empty,simulates_init d i,by simp [HistoryVotes,init,boot],by simp [init]⟩
  have hkeep (s : State P) (a : Action P) (s' : State P) (h : ∃ t, Tracks d i s t)
      (hcond : ¬StaleAtQuorum i s a) (hstep : step d s a=some s') : ∃ t, Tracks d i s' t := by
    obtain ⟨t,ht⟩ := h
    exact ht.step hcond hstep
  obtain ⟨t,ht⟩ := exec_invariant hkeep hinit hrun hfresh
  exact ht.deliveredAgree

def VotedFor (i : Fin instanceCount) (s : State P) (a r : BitVec 16) (v : BitVec 256) : Prop :=
  ∃ hdr ∈ s.net, hdr.Carries fun p => p.msgtype=paxos2B ∧ p.inst.toNat=i ∧ p.acptid=a ∧ p.rnd=r ∧ p.paxosval=v

def MajorityFor (i : Fin instanceCount) (s : State P) (v : BitVec 256) : Prop :=
  ∃ a b r, a≠b ∧ VotedFor i s a r v ∧ VotedFor i s b r v
omit [DecidableEq P] in
theorem Simulates.chosen {s : State P} (h : Simulates d i s t) {v : BitVec 256} (hv : MajorityFor i s v) :
    ∃ r, Paxos.Chosen majorities t r v := by
  have hvote {a r : BitVec 16} (ha : VotedFor i s a r v) : ∃ x : Fin 3, a=.ofNat 16 x ∧ (x,r.toNat,v) ∈ t.vote := by
    obtain ⟨hdr,hmem,p,hp,hty,hi,rfl,rfl,rfl⟩ := ha
    exact (h.net hdr hmem p hp hi).vote hty
  obtain ⟨a,b,r,hab,ha,hb⟩ := hv
  obtain ⟨x,rfl,hx⟩ := hvote ha
  obtain ⟨y,rfl,hy⟩ := hvote hb
  refine ⟨r.toNat,{x, y},⟨x,by simp,y,by simp,fun hxy => hab (by rw [hxy])⟩,?_⟩
  rintro z (rfl | rfl)
  · exact hx
  · exact hy

theorem Simulates.step {s s' : State P} (h : Simulates d i s t) {a : Action P} (hstep : step d s a=some s') :
    ∃ u, Simulates d i s' u := by
  cases a with
  | send1a p hdr =>
    simp only [P4xos.step,ite_none_right_eq_some,some.injEq] at hstep
    exact ⟨t,hstep.2 ▸ h.send1a hstep.1⟩
  | send2a p hdr reply reply' =>
    simp only [P4xos.step] at hstep
    split at hstep
    · rename_i hm hb hb'
      simp only [ite_none_right_eq_some,some.injEq] at hstep
      obtain ⟨⟨hreply,hreply',hmay⟩,rfl⟩ := hstep
      obtain ⟨u,-,hu⟩ := h.send2a hm hb hb' hreply hreply' hmay
      exact ⟨u,hu⟩
    · cases hstep
  | acceptor a hdr port junk =>
    simp only [P4xos.step,ite_none_right_eq_some,some.injEq] at hstep
    obtain ⟨u,-,hu⟩ := h.acceptor junk a (.arriving port) hstep.1
    exact ⟨u,hstep.2 ▸ hu⟩
  | learner hdr port junk =>
    simp only [P4xos.step,ite_none_right_eq_some,some.injEq] at hstep
    exact ⟨t,hstep.2 ▸ ⟨h.1,h.2,h.3,h.4⟩⟩

/-- Whatever is lost, repeated or reordered, and whatever the learner does: in no run does an

instance have majorities of votes for two values. -/
theorem majorities_agree (d : Deployment P) (i : Fin instanceCount) (as : List (Action P)) (s : State P)
    (hrun : exec (step d) (init d) as=some s) {v w : BitVec 256} (hv : MajorityFor i s v) (hw : MajorityFor i s w) :
    v=w := by
  have hkeep : ∀ s, ∀ a ∈ as, ∀ s', (∃ t, Simulates d i s t) → step d s a=some s' → ∃ t, Simulates d i s' t :=
    fun _ _ _ _ ⟨_,h⟩ hstep => h.step hstep
  obtain ⟨t,h⟩ := exec_invariant_mem hkeep ⟨_,simulates_init d i⟩ hrun
  obtain ⟨r,hr⟩ := h.chosen hv
  obtain ⟨r',hr'⟩ := h.chosen hw
  exact h.reachable.sound.chosen_unique majorities_intersect hr hr'
section Runs

private def twoProposers : Deployment Bool where
  owner := fun rnd => rnd==2
  acceptor := fun i => ⟨.ofNat 16 i,0,0,fun _ => some ⟨1,0,0,0⟩⟩
  acceptorID_eq := fun _ => rfl
  transport := fun _ => none

private def packet (msgtype rnd acptid : BitVec 16) (paxosval : BitVec 256) : Headers where
  ethernet := ⟨0,0⟩
  arp := none
  ipv4 := some ⟨0,0⟩
  icmp := none
  udp := some ⟨0⟩
  paxos := some ⟨msgtype,0,rnd,0,acptid,0,paxosval⟩
variable (rnd : BitVec 16)
private def prepare (a b : Fin 3) (v : BitVec 256) : List (Action Bool) :=
  let ask := packet paxos1A rnd 0 0
  [.send1a (rnd==2) ask,.acceptor a ask 0 fun _ => 0,.acceptor b ask 0 fun _ => 0,
    .send2a (rnd==2) (packet paxos2A rnd 0 v) (packet paxos1B rnd (.ofNat 16 a) 0)
      (packet paxos1B rnd (.ofNat 16 b) 0)]

private def accept (a : Fin 3) (v : BitVec 256) : Action Bool :=
  .acceptor a (packet paxos2A rnd 0 v) 0 fun _ => 0

private def learn (a : Fin 3) (v : BitVec 256) : Action Bool :=
  .learner (packet paxos2B rnd (.ofNat 16 a) v) 0 fun _ => 0

/-- Acceptor 0 votes for 10 in round 1, the others choose 20 in round 2, and the vote of round 1
reaches the learner last. -/
private def lateVote : List (Action Bool) :=
  prepare 1 0 1 10++[accept 1 0 10]++prepare 2 1 2 20 ++
    [accept 2 1 20,accept 2 2 20,learn 2 1 20,learn 2 2 20,learn 1 0 10]

/-- The learner delivers the late vote although another value was chosen and delivered. -/
theorem lateVote_delivers_other_value : ∃ s, exec (step twoProposers) (init twoProposers) lateVote=some s ∧
      ¬ DeliveredAgree 0 s := by
  have hdel : (exec (step twoProposers) (init twoProposers) lateVote).map State.delivered =
      some [packet paxos2B 1 0 10,packet paxos2B 2 2 20] := by decide +kernel
  obtain ⟨s,hs,hlist⟩ := map_eq_some_iff.mp hdel
  refine ⟨s,hs,fun hagree => ?_⟩
  have hsame := hagree (packet paxos2B 1 0 10) (by simp [hlist]) (packet paxos2B 2 2 20)
    (by simp [hlist]) _ _ rfl rfl rfl rfl
  exact absurd hsame (by decide)

private def repeatedVote : List (Action Bool) :=
  prepare 1 0 1 10++[accept 1 0 10,accept 1 1 10,learn 1 0 10,learn 1 1 10,learn 1 1 10]

theorem repeatedVote_deliveredAgree : ∃ s, exec (step twoProposers) (init twoProposers) repeatedVote=some s ∧
      s.delivered.length=2 ∧ DeliveredAgree 0 s := by
  have hdel : (exec (step twoProposers) (init twoProposers) repeatedVote).map
      (fun s => s.delivered.length)=some 2 := by decide +kernel
  obtain ⟨s,hs,hlen⟩ := map_eq_some_iff.mp hdel
  exact ⟨s,hs,hlen,deliveredAgree_of_fresh twoProposers 0 repeatedVote s hs (by decide +kernel)⟩

/-- Also in the run with two deliveries only one value has a majority. -/
theorem lateVote_majority : ∃ s, exec (step twoProposers) (init twoProposers) lateVote=some s ∧
    ∀ v, MajorityFor 0 s v → v=20 := by
  have hvotes : (exec (step twoProposers) (init twoProposers) lateVote).map
      (fun s => (packet paxos2B 2 1 20 ∈ s.net ∧ packet paxos2B 2 2 20 ∈ s.net : Bool))=some true := by decide +kernel
  obtain ⟨s,hs,hnet⟩ := map_eq_some_iff.mp hvotes
  rw [decide_eq_true_iff] at hnet
  refine ⟨s,hs,fun v hv => majorities_agree twoProposers 0 lateVote s hs hv ⟨1,2,2,by decide,?_,?_⟩⟩
  · exact ⟨_,hnet.1,_,rfl,rfl,rfl,rfl,rfl,rfl⟩
  · exact ⟨_,hnet.2,_,rfl,rfl,rfl,rfl,rfl,rfl⟩
end Runs
end P4Benchmarks.P4xos
