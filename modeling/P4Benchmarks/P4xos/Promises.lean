import Mathlib.Data.List.Induction
import P4Benchmarks.P4xos.Acceptor
/-!
# What one acceptor promises

`transport_tbl` is applied after `acceptor_tbl` and overwrites the `egress_spec` of a packet marked
to drop, so a 1B or a 2B from elsewhere passes through.
-/
namespace P4Benchmarks.P4xos.Acceptor
open Lib List Option Register
attribute [local simp] write_apply

/-- A Paxos packet on its way into the switch; `junk` are the values of reads outside the
registers. -/
structure Arrival where
  ethernet : Ethernet
  ipv4 : Ipv4
  udp : Udp
  paxos : Paxos
  port : BitVec 9
  junk : Unspecified

def Arrival.headers (a : Arrival) : Headers where
  ethernet := a.ethernet
  arp := none
  ipv4 := some a.ipv4
  icmp := none
  udp := some a.udp
  paxos := some a.paxos
variable (cfg : Config) (regs : Registers) (a : Arrival)
def process : Registers × Headers × StandardMetadata := ingress a.junk cfg regs a.headers (.arriving a.port)

/-- The 1B or 2B into which `acceptor_tbl` has turned a 1A or a 2A, whatever `transport_tbl` then
does with the packet. -/
def answer : Option Paxos := (process cfg regs a).2.1.paxos.filter fun p => p.msgtype≠a.paxos.msgtype
def emitted : Option Paxos := if (process cfg regs a).2.2.leaves then (process cfg regs a).2.1.paxos else none

structure History where
  regs : Registers
  (answers sent : List Paxos)

def History.init : History := ⟨boot cfg,[],[]⟩

def History.step (h : History) (a : Arrival) : History where
  regs := (process cfg h.regs a).1
  answers := (answer cfg h.regs a).toList++h.answers
  sent := (emitted cfg h.regs a).toList++h.sent

def history (as : List Arrival) : History := as.foldl (.step cfg) (.init cfg)
variable (i : Fin instanceCount)
def IsVote (p : Paxos) : Prop := p.msgtype=paxos2B ∧ p.inst.toNat=i
def IsPromise (p : Paxos) : Prop := p.msgtype=paxos1B ∧ p.inst.toNat=i
instance (i : Fin instanceCount) : DecidablePred (IsVote i) := fun _ => inferInstanceAs (Decidable (_ ∧ _))

def lastVote (ps : List Paxos) : BitVec 16 × BitVec 256 :=
  match ps.find? fun p => IsVote i p with
  | some p => (p.rnd,p.paxosval)
  | none => (0,0)

/-- The 1B `p` reports the latest 2B for instance `i` in `ps`, and none has a higher round. -/
def Reports (ps : List Paxos) (p : Paxos) : Prop :=
  (p.vrnd,p.paxosval)=lastVote i ps ∧ ∀ q ∈ ps, IsVote i q → q.rnd≤p.vrnd

/-- A packet of instance `i` that is neither a 1B nor a 2B, and for which `transport_tbl` has an
entry if it is a 2A that the acceptor accepts. -/
def Regular (i : Fin instanceCount) (regs : Registers) (a : Arrival) : Prop :=
  a.paxos.inst.toNat=i → a.paxos.msgtype≠paxos1B ∧ a.paxos.msgtype≠paxos2B ∧
    (a.paxos.msgtype=paxos2A → regs.registerRound i≤a.paxos.rnd → (cfg.transport a.ipv4.dstAddr).isSome)

theorem answer_cases : (answer cfg regs a=none ∧ (process cfg regs a).1=regs) ∨
      ∃ p, answer cfg regs a=some p ∧ p.inst=a.paxos.inst ∧ p.rnd=a.paxos.rnd ∧
        regs.registerRound.read a.junk p.inst.toNat≤p.rnd ∧
        ((a.paxos.msgtype=paxos1A ∧ p.msgtype=paxos1B ∧ p.vrnd=regs.registerVRound.read a.junk p.inst.toNat ∧
            p.paxosval=regs.registerValue.read a.junk p.inst.toNat ∧
            (process cfg regs a).1={ regs with
              registerRound := regs.registerRound.write p.inst.toNat p.rnd }) ∨
          (a.paxos.msgtype=paxos2A ∧ p.msgtype=paxos2B ∧ (process cfg regs a).1=(handle2a a.junk regs p).1)) := by
  obtain ⟨hregs,hhdr⟩ | ⟨p,hp,hround,⟨htype,hregs,hhdr⟩ | ⟨htype,hregs,hhdr⟩⟩ :=
    ingress_cases a.junk cfg regs a.headers (.arriving a.port)
  · left
    refine ⟨?_,hregs⟩
    rw [answer,process,hhdr]
    simp [Arrival.headers]
  · obtain rfl : a.paxos=p := some.inj hp
    right
    refine ⟨(handle1a a.junk regs a.paxos).2,?_,rfl,rfl,hround,.inl ⟨htype,rfl,rfl,rfl,hregs⟩⟩
    rw [answer,process,hhdr,filter_some,if_pos]
    simp [htype,handle1a,paxos1A,paxos1B]
  · obtain rfl : a.paxos=p := some.inj hp
    right
    refine ⟨(handle2a a.junk regs a.paxos).2,?_,rfl,rfl,hround,.inr ⟨htype,rfl,hregs⟩⟩
    rw [answer,process,hhdr,filter_some,if_pos]
    simp [htype,handle2a,paxos2A,paxos2B]
variable {a : Arrival} {cfg : Config} {p : Paxos} {regs : Registers}
theorem mem_answer_iff : answer cfg regs a=some p ↔
      (process cfg regs a).2.1.paxos=some p ∧ p.msgtype≠a.paxos.msgtype := by
  simp [answer,filter_eq_some_iff]

theorem process_inst (h : (process cfg regs a).2.1.paxos=some p) : p.inst=a.paxos.inst := by
  obtain ⟨-,hhdr⟩ | ⟨q,hq,-,⟨-,-,hhdr⟩ | ⟨-,-,hhdr⟩⟩ :=
    ingress_cases a.junk cfg regs a.headers (.arriving a.port)
  · rw [process,hhdr] at h
    rw [← some.inj h]
  · rw [process,hhdr] at h
    rw [← some.inj h,some.inj hq]
    rfl
  · rw [process,hhdr] at h
    rw [← some.inj h,some.inj hq]
    rfl

/-- An accepted packet leaves the switch if `transport_tbl` knows its destination, also one that
`acceptor_tbl` has marked to drop. -/
theorem process_leaves (hround : regs.registerRound.read a.junk a.paxos.inst.toNat≤a.paxos.rnd)
    (hdst : (cfg.transport a.ipv4.dstAddr).isSome) : (process cfg regs a).2.2.leaves := by
  obtain ⟨e,he⟩ := isSome_iff_exists.mp hdst
  have hport : e.port.zeroExtend 9≠dropPort := by
    intro h
    have hlt : (e.port.zeroExtend 9).toNat<16 := by exact e.port.isLt
    rw [h] at hlt
    exact absurd hlt (by decide)
  simp only [process,ingress,Arrival.headers,ge_iff_le,if_pos hround,transportTbl,he,forward,StandardMetadata.leaves]
  simpa using hport

structure Consistent (i : Fin instanceCount) (regs : Registers) (ps : List Paxos) : Prop where
  vround_le : regs.registerVRound i ≤ regs.registerRound i
  last : (regs.registerVRound i,regs.registerValue i)=lastVote i ps
  votes : ∀ q ∈ ps, IsVote i q → q.rnd ≤ regs.registerVRound i
  promises : ∀ q ∈ ps, IsPromise i q → q.rnd ≤ regs.registerRound i

theorem consistent_boot (cfg : Config) (i : Fin instanceCount) : Consistent i (boot cfg) [] where
  vround_le := BitVec.le_refl _
  last := rfl
  votes := by simp
  promises := by simp
variable {i : Fin instanceCount}
theorem lastVote_cons_of_not (h : ¬ IsVote i p) (ps : List Paxos) : lastVote i (p::ps)=lastVote i ps := by
  simp [lastVote,h]

theorem lastVote_cons (h : IsVote i p) (ps : List Paxos) : lastVote i (p::ps)=(p.rnd,p.paxosval) := by simp [lastVote,h]

theorem registerRound_le_process (cfg : Config) (i : Fin instanceCount) (regs : Registers)
    (a : Arrival) : regs.registerRound i≤(process cfg regs a).1.registerRound i := by
  obtain ⟨-,hregs⟩ | ⟨p,-,-,-,hround,⟨-,-,-,-,hregs⟩ | ⟨-,-,hregs⟩⟩ := answer_cases cfg regs a
  · rw [hregs]
    exact BitVec.le_refl _
  all_goals
    rw [hregs]
    change _ ≤ regs.registerRound.write p.inst.toNat p.rnd i
    rw [write_apply]
    split_ifs with hi
    · rwa [← hi,read_val] at hround
    · exact BitVec.le_refl _

theorem not_isVote_of_isPromise (h : IsPromise i p) : ¬ IsVote i p := by
  intro hvote
  have hsame : paxos1B=paxos2B := h.1.symm.trans hvote.1
  exact absurd hsame (by decide)
variable {ps : List Paxos}
theorem Consistent.record (h : Consistent i regs ps) {q : Paxos} (hvote : ¬ IsVote i q)
    (hpromise : IsPromise i q → q.rnd ≤ regs.registerRound i) : Consistent i regs (q::ps) where
  vround_le := h.vround_le
  last := by rw [lastVote_cons_of_not hvote,h.last]
  votes := by
    intro r hr hr'
    rcases mem_cons.mp hr with rfl | hold
    · exact absurd hr' hvote
    · exact h.votes r hold hr'
  promises := by
    intro r hr hr'
    rcases mem_cons.mp hr with rfl | hold
    · exact hpromise hr'
    · exact h.promises r hold hr'

theorem Consistent.raise {regs regs' : Registers}
    (h : Consistent i regs ps) (hround : regs.registerRound i ≤ regs'.registerRound i)
    (hvround : regs'.registerVRound i=regs.registerVRound i)
    (hvalue : regs'.registerValue i=regs.registerValue i) : Consistent i regs' ps where
  vround_le := by
    rw [hvround]
    exact BitVec.le_trans h.vround_le hround
  last := by rw [hvround,hvalue,h.last]
  votes := by
    intro q hq hvote
    rw [hvround]
    exact h.votes q hq hvote
  promises := by
    intro q hq hpromise
    exact BitVec.le_trans (h.promises q hq hpromise) hround

theorem Consistent.vote (h : Consistent i regs ps) (hp : IsVote i p) (hround : regs.registerRound i≤p.rnd) :
    Consistent i (handle2a a.junk regs p).1 (p::ps) where
  vround_le := by simp [handle2a,hp.2]
  last := by simp [handle2a,hp.2,lastVote_cons hp]
  votes := by
    intro q hq hvote
    simp only [handle2a,write_apply,hp.2,if_true]
    rcases mem_cons.mp hq with rfl | hold
    · exact BitVec.le_refl _
    · exact BitVec.le_trans (h.votes q hold hvote) (BitVec.le_trans h.vround_le hround)
  promises := by
    intro q hq hpromise
    simp only [handle2a,write_apply,hp.2,if_true]
    rcases mem_cons.mp hq with rfl | hold
    · exact BitVec.le_refl _
    · exact BitVec.le_trans (h.promises q hold hpromise) hround

/-- The messages `o` recorded for one packet agree with its answer as far as votes and promises of

instance `i` are concerned. -/
structure Records (cfg : Config) (i : Fin instanceCount) (regs : Registers) (a : Arrival)
    (o : Option Paxos) : Prop where
  sound : ∀ p, o=some p → IsVote i p ∨ IsPromise i p → answer cfg regs a=some p
  complete : ∀ p, answer cfg regs a=some p → IsVote i p → o=some p

theorem Consistent.step {o : Option Paxos} (h : Consistent i regs ps)
    (ho : Records cfg i regs a o) : Consistent i (process cfg regs a).1 (o.toList++ps) := by
  by_cases hvote : ∃ p, answer cfg regs a=some p ∧ IsVote i p
  · obtain ⟨p,hans,hp⟩ := hvote
    rw [ho.complete p hans hp]
    obtain ⟨hnone,-⟩ | ⟨q,hq,-,-,hround,⟨-,hty,-⟩ | ⟨-,-,hregs⟩⟩ := answer_cases cfg regs a
    · rw [hnone] at hans
      cases hans
    all_goals obtain rfl : p=q := some.inj (hans.symm.trans hq)
    · exact absurd hp (not_isVote_of_isPromise ⟨hty,hp.2⟩)
    · rw [hregs]
      rw [hp.2,read_val] at hround
      exact h.vote hp hround
  · -- no vote for this instance: its round may grow, its last vote stays
    have hkept : Consistent i (process cfg regs a).1 ps ∧ ∀ p, answer cfg regs a=some p → IsPromise i p →
          p.rnd≤(process cfg regs a).1.registerRound i := by
      have hmono := registerRound_le_process cfg i regs a
      obtain ⟨hnone,hregs⟩ | ⟨q,hq,-,-,-,⟨-,-,-,-,hregs⟩ | ⟨-,hty,hregs⟩⟩ := answer_cases cfg regs a
      · rw [hregs,hnone]
        exact ⟨h,by simp⟩
      · refine ⟨h.raise hmono (by rw [hregs]) (by rw [hregs]),fun p hp hpromise => ?_⟩
        obtain rfl : p=q := some.inj (hp.symm.trans hq)
        simp [hregs,hpromise.2]
      · have hother : ¬ (i : Nat)=q.inst.toNat := fun hi => hvote ⟨q,hq,hty,hi.symm⟩
        refine ⟨h.raise hmono ?_ ?_,fun p hp hpromise => ?_⟩
        · simp [hregs,handle2a,hother]
        · simp [hregs,handle2a,hother]
        · obtain rfl : p=q := some.inj (hp.symm.trans hq)
          exact absurd hpromise.2.symm hother
    cases o with
    | none => exact hkept.1
    | some q =>
      refine hkept.1.record (fun hq => hvote ⟨q,ho.sound q rfl (.inl hq),hq⟩) fun hq => ?_
      exact hkept.2 q (ho.sound q rfl (.inr hq)) hq

theorem records_answer (cfg : Config) (i : Fin instanceCount) (regs : Registers) (a : Arrival) :
    Records cfg i regs a (answer cfg regs a) where
  sound := fun _ h _ => h
  complete := fun _ h _ => h

theorem records_emitted (h : Regular cfg i regs a) : Records cfg i regs a (emitted cfg regs a) where
  sound := by
    intro p hp hkind
    have hhdr : (process cfg regs a).2.1.paxos=some p := by
      unfold emitted at hp
      split_ifs at hp
      exact hp
    have hi : p.inst.toNat=i := hkind.elim And.right And.right
    rw [process_inst hhdr] at hi
    obtain ⟨h1b,h2b,-⟩ := h hi
    refine mem_answer_iff.mpr ⟨hhdr,fun hsame => ?_⟩
    rcases hkind with hvote | hpromise
    · exact h2b (hsame.symm.trans hvote.1)
    · exact h1b (hsame.symm.trans hpromise.1)
  complete := by
    intro p hp hvote
    obtain ⟨hnone,-⟩ | ⟨q,hq,hinst,hrnd,hround,⟨-,hty,-⟩ | ⟨hty,-⟩⟩ := answer_cases cfg regs a
    · rw [hnone] at hp
      cases hp
    all_goals obtain rfl : p=q := some.inj (hp.symm.trans hq)
    · exact absurd hvote (not_isVote_of_isPromise ⟨hty,hvote.2⟩)
    · have hi : a.paxos.inst.toNat=i := by rw [← hinst,hvote.2]
      rw [hinst,hrnd] at hround
      have hdst := (h hi).2.2 hty (by rwa [hi,read_val] at hround)
      rw [emitted,if_pos (process_leaves hround hdst)]
      exact (mem_answer_iff.mp hp).1

theorem history_concat (cfg : Config) (as : List Arrival) (a : Arrival) :
    history cfg (as++[a])=(history cfg as).step cfg a := by
  simp [history]

theorem answers_consistent (cfg : Config) (i : Fin instanceCount) (as : List Arrival) :
    Consistent i (history cfg as).regs (history cfg as).answers := by
  induction as using List.reverseRecOn with
  | nil => exact consistent_boot cfg i
  | append_singleton as a ih =>
    rw [history_concat]
    exact ih.step (records_answer cfg i _ a)

def EachRegular (cfg : Config) (i : Fin instanceCount) (as : List Arrival) : Prop :=
  ∀ bs b, bs++[b] <+: as → Regular cfg i (history cfg bs).regs b

theorem eachRegular_concat {as : List Arrival} : EachRegular cfg i (as++[a]) ↔
      EachRegular cfg i as ∧ Regular cfg i (history cfg as).regs a := by
  constructor
  · intro h
    exact ⟨fun bs b hbs => h bs b (hbs.trans (prefix_append as [a])), h as a (prefix_refl _)⟩
  · rintro ⟨hinit,hlast⟩ bs b hbs
    rcases prefix_concat_iff.mp hbs with heq | hbs
    · obtain ⟨rfl,hb⟩ := append_inj' heq rfl
      rwa [(List.cons.inj hb).1]
    · exact hinit bs b hbs

theorem sent_consistent {as : List Arrival}
    (h : EachRegular cfg i as) : Consistent i (history cfg as).regs (history cfg as).sent := by
  induction as using List.reverseRecOn with
  | nil => exact consistent_boot cfg i
  | append_singleton as a ih =>
    obtain ⟨hinit,hlast⟩ := eachRegular_concat.mp h
    rw [history_concat]
    exact (ih hinit).step (records_emitted hlast)

theorem Consistent.reports (h : Consistent i regs ps)
    (hp : answer cfg regs a=some p) (hpromise : IsPromise i p) : Reports i ps p := by
  obtain ⟨hnone,-⟩ | ⟨q,hq,-,-,-,⟨-,-,hvrnd,hval,-⟩ | ⟨-,hty,-⟩⟩ := answer_cases cfg regs a
  · rw [hnone] at hp
    cases hp
  all_goals obtain rfl : p=q := some.inj (hp.symm.trans hq)
  · rw [hpromise.2,read_val] at hvrnd hval
    unfold Reports
    rw [hvrnd,hval]
    exact ⟨h.last,h.votes⟩
  · exact absurd ⟨hty,hpromise.2⟩ (not_isVote_of_isPromise hpromise)

/-- The round of an instance never decreases and bounds the round of its vote, a promise excludes
answers to older proposals, and a promise reports the last and highest vote.  The messages that
leave the switch are such promises as long as the packets are regular. -/
theorem promises_kept (cfg : Config) (i : Fin instanceCount) (as : List Arrival) (a : Arrival) :
    (history cfg as).regs.registerRound i≤(history cfg (as++[a])).regs.registerRound i ∧
      (history cfg as).regs.registerVRound i≤(history cfg as).regs.registerRound i ∧
      (∀ p q, p ∈ (history cfg as).answers → IsPromise i p →
        answer cfg (history cfg as).regs a=some q → IsVote i q → p.rnd≤q.rnd) ∧
      (∀ p, answer cfg (history cfg as).regs a=some p → IsPromise i p → Reports i (history cfg as).answers p) ∧
      (EachRegular cfg i (as++[a]) → ∀ p, emitted cfg (history cfg as).regs a=some p →
        IsPromise i p → Reports i (history cfg as).sent p) := by
  have hans := answers_consistent cfg i as
  refine ⟨?_,hans.vround_le,?_,fun p hp => hans.reports hp,?_⟩
  · rw [history_concat]
    exact registerRound_le_process cfg i _ a
  · intro p q hp hpromise hq hvote
    obtain ⟨hnone,-⟩ | ⟨r,hr,-,-,hround,-⟩ := answer_cases cfg (history cfg as).regs a
    · rw [hnone] at hq
      cases hq
    obtain rfl : q=r := some.inj (hq.symm.trans hr)
    rw [hvote.2,read_val] at hround
    exact BitVec.le_trans (hans.promises p hp hpromise) hround
  · intro hreg p hp hpromise
    obtain ⟨hinit,hlast⟩ := eachRegular_concat.mp hreg
    exact (sent_consistent hinit).reports ((records_emitted hlast).sound p hp (.inr hpromise)) hpromise
section Runs
private def oneRoute : Config where
  acceptorID := 1
  macAddress := 0
  ipAddress := 0
  transport := fun dst => if dst=1 then some ⟨1,0,0,34952⟩ else none

private def arrival (dst : BitVec 32) (msgtype rnd vrnd : BitVec 16) (value : BitVec 256) : Arrival where
  ethernet := ⟨0,0⟩
  ipv4 := ⟨0,dst⟩
  udp := ⟨34952⟩
  paxos := ⟨msgtype,0,rnd,vrnd,0,4,value⟩
  port := 1
  junk := fun _ => 0

/-- A 1B that comes from elsewhere is marked to drop and sent all the same; a vote whose 2B has no
route is never sent but reported. -/
theorem foreign_promise_emitted : (∃ p, emitted oneRoute (history oneRoute []).regs (arrival 1 paxos1B 1 5 7)=some p ∧
      IsPromise 0 p ∧ ¬ Reports 0 (history oneRoute []).sent p) ∧
    ∃ p, emitted oneRoute (history oneRoute [arrival 2 paxos2A 1 0 7]).regs (arrival 1 paxos1A 2 0 0)=some p ∧
      IsPromise 0 p ∧ ¬ Reports 0 (history oneRoute [arrival 2 paxos2A 1 0 7]).sent p := by
  refine ⟨⟨⟨paxos1B,0,1,5,0,4,7⟩,by decide +kernel,⟨rfl,rfl⟩,fun h => ?_⟩,
    ⟨⟨paxos1B,0,2,1,1,4,7⟩,by decide +kernel,⟨rfl,rfl⟩,fun h => ?_⟩⟩
  · exact absurd h.1 (by decide +kernel)
  · exact absurd h.1 (by decide +kernel)

theorem regular_promise_reports : EachRegular oneRoute 0 ([arrival 1 paxos2A 1 0 7]++[arrival 1 paxos1A 2 0 0]) ∧
      ∃ p, emitted oneRoute (history oneRoute [arrival 1 paxos2A 1 0 7]).regs
          (arrival 1 paxos1A 2 0 0)=some p ∧ IsPromise 0 p ∧
        Reports 0 (history oneRoute [arrival 1 paxos2A 1 0 7]).sent p := by
  have hregular : EachRegular oneRoute 0 ([arrival 1 paxos2A 1 0 7]++[arrival 1 paxos1A 2 0 0]) := by
    have hfirst : EachRegular oneRoute 0 ([]++[arrival 1 paxos2A 1 0 7]) := by
      refine eachRegular_concat.mpr ⟨fun bs b hbs => ?_,?_⟩
      · simp at hbs
      · exact fun _ => ⟨by decide,by decide,fun _ _ => rfl⟩
    refine eachRegular_concat.mpr ⟨hfirst,?_⟩
    exact fun _ => ⟨by decide,by decide,fun hty => absurd hty (by decide)⟩
  refine ⟨hregular,⟨paxos1B,0,2,1,1,4,7⟩,by decide +kernel,⟨rfl,rfl⟩,?_⟩
  exact (promises_kept oneRoute 0 _ _).2.2.2.2 hregular _ (by decide +kernel) ⟨rfl,rfl⟩
end Runs
end P4Benchmarks.P4xos.Acceptor
