import Mathlib.Data.Set.Lattice
/-!
# Abstract multi-proposer Paxos for one decision

Acceptors, values and the quorum system are arbitrary.  Every message ever sent is remembered,
so a lost message is one that nobody reads and a duplicate is one that is read twice.
-/
namespace P4Benchmarks.Lib.Paxos
open Function
universe u v
variable {A : Type u} {V : Type v}
structure State (A : Type u) (V : Type v) where
  promised : A → ℕ
  lastVote : A → Option (ℕ × V)
  report : Set (A × ℕ × Option (ℕ × V))
  proposed : Set (ℕ × V)
  vote : Set (A × ℕ × V)

def State.empty : State A V where
  promised := fun _ => 0
  lastVote := fun _ => none
  report := ∅
  proposed := ∅
  vote := ∅

/-- `v` is allowed by the reports of `q`: it is the value of the highest reported vote, or
nobody in `q` reported a vote. -/
def Picks (q : Set A) (rep : A → Option (ℕ × V)) (v : V) : Prop :=
  (∀ a ∈ q, rep a=none) ∨ ∃ a ∈ q, ∃ c, rep a=some (c,v) ∧ ∀ b ∈ q, ∀ c' w, rep b=some (c',w) → c' ≤ c
variable [DecidableEq A]
inductive Step (Q : Set (Set A)) : State A V → State A V → Prop
  | promise (s : State A V) (a : A) (r : ℕ) (hr : s.promised a ≤ r) :
      Step Q s { s with
        promised := update s.promised a r
        report := insert (a,r,s.lastVote a) s.report }
  | propose (s : State A V) (r : ℕ) (v : V) (q : Set A) (rep : A → Option (ℕ × V))
      (hq : q ∈ Q) (hrep : ∀ a ∈ q, (a,r,rep a) ∈ s.report) (hpick : Picks q rep v)
      (hone : ∀ w, (r,w) ∈ s.proposed → w=v) :
      Step Q s { s with proposed := insert (r,v) s.proposed }
  | accept (s : State A V) (a : A) (r : ℕ) (v : V) (hprop : (r,v) ∈ s.proposed)
      (hr : s.promised a ≤ r) :
      Step Q s { s with
        promised := update s.promised a r
        lastVote := update s.lastVote a (some (r,v))
        vote := insert (a,r,v) s.vote }

inductive Reachable (Q : Set (Set A)) : State A V → Prop
  | init : Reachable Q State.empty
  | step {s t : State A V} : Reachable Q s → Step Q s t → Reachable Q t

/-- No value other than `v` can have been or can still be chosen below round `r`. -/
def SafeAt (Q : Set (Set A)) (s : State A V) (r : ℕ) (v : V) : Prop :=
  ∃ q ∈ Q, (∀ a ∈ q, r ≤ s.promised a) ∧ ((∀ a ∈ q, ∀ r' w, (a,r',w) ∈ s.vote → r ≤ r') ∨
      ∃ c < r, (∀ a ∈ q, ∀ r' w, (a,r',w) ∈ s.vote → r' ≤ c ∨ r ≤ r') ∧ ∃ a ∈ q, (a,c,v) ∈ s.vote)

structure Sound (Q : Set (Set A)) (s : State A V) : Prop where
  vote_le : ∀ a r v, (a,r,v) ∈ s.vote → r ≤ s.promised a
  lastVote_mem : ∀ a r v, s.lastVote a=some (r,v) → (a,r,v) ∈ s.vote
  vote_le_lastVote : ∀ a r v, (a,r,v) ∈ s.vote → ∃ c w, s.lastVote a=some (c,w) ∧ r ≤ c
  report_le : ∀ a r o, (a,r,o) ∈ s.report → r ≤ s.promised a
  report_mem : ∀ a r c v, (a,r,some (c,v)) ∈ s.report → (a,c,v) ∈ s.vote ∧ c ≤ r
  report_covers : ∀ a r o r' w, (a,r,o) ∈ s.report → (a,r',w) ∈ s.vote → r' < r → ∃ c v, o=some (c,v) ∧ r' ≤ c
  vote_proposed : ∀ a r v, (a,r,v) ∈ s.vote → (r,v) ∈ s.proposed
  proposed_unique : ∀ r v w, (r,v) ∈ s.proposed → (r,w) ∈ s.proposed → v=w
  proposed_safe : ∀ r v, (r,v) ∈ s.proposed → SafeAt Q s r v

structure State.Extends (s t : State A V) : Prop where
  report : s.report ⊆ t.report
  proposed : s.proposed ⊆ t.proposed
  vote : s.vote ⊆ t.vote
omit [DecidableEq A] in
theorem State.Extends.refl (s : State A V) : s.Extends s := ⟨subset_rfl,subset_rfl,subset_rfl⟩
variable {Q : Set (Set A)} {s t : State A V}
theorem Step.extends (h : Step Q s t) : s.Extends t := by
  cases h with
  | promise => exact ⟨Set.subset_insert _ _,subset_rfl,subset_rfl⟩
  | propose => exact ⟨subset_rfl,Set.subset_insert _ _,subset_rfl⟩
  | accept => exact ⟨subset_rfl,subset_rfl,Set.subset_insert _ _⟩
omit [DecidableEq A] in
theorem sound_empty (Q : Set (Set A)) : Sound Q (State.empty : State A V) := by constructor <;> simp [State.empty]
variable {r : ℕ}
omit [DecidableEq A] in
theorem SafeAt.mono {v : V} (hvote : t.vote=s.vote) (hprom : ∀ a, s.promised a≤t.promised a)
    (h : SafeAt Q s r v) : SafeAt Q t r v := by
  obtain ⟨q,hq,hpr,hsafe⟩ := h
  refine ⟨q,hq,fun a ha => (hpr a ha).trans (hprom a),?_⟩
  rw [hvote]
  exact hsafe

private theorem le_update_promised (s : State A V) {a : A} (hr : s.promised a ≤ r)
    (b : A) : s.promised b≤update s.promised a r b := by
  by_cases h : b=a
  · subst h
    simpa using hr
  · simp [h]
variable {s : State A V}
theorem Sound.promise (hs : Sound Q s) (a : A) (r : ℕ) (hr : s.promised a ≤ r) : Sound Q { s with
      promised := update s.promised a r
      report := insert (a,r,s.lastVote a) s.report } := by
  have hup := le_update_promised s hr
  constructor
  case vote_le => exact fun b r' v hv => (hs.vote_le b r' v hv).trans (hup b)
  case lastVote_mem => exact hs.lastVote_mem
  case vote_le_lastVote => exact hs.vote_le_lastVote
  case report_le =>
    rintro b r' o (heq | hold)
    · cases heq
      simp
    · exact (hs.report_le b r' o hold).trans (hup b)
  case report_mem =>
    rintro b r' c v (heq | hold)
    · obtain ⟨rfl,rfl,hlast⟩ : b=a ∧ r'=r ∧ some (c,v)=s.lastVote a := by simpa using heq
      have hmem := hs.lastVote_mem b c v hlast.symm
      exact ⟨hmem,(hs.vote_le b c v hmem).trans hr⟩
    · exact hs.report_mem b r' c v hold
  case report_covers =>
    rintro b r' o r'' w (heq | hold) hv hlt
    · obtain ⟨rfl,rfl,rfl⟩ : b=a ∧ r'=r ∧ o=s.lastVote a := by simpa using heq
      exact hs.vote_le_lastVote b r'' w hv
    · exact hs.report_covers b r' o r'' w hold hv hlt
  case vote_proposed => exact hs.vote_proposed
  case proposed_unique => exact hs.proposed_unique
  case proposed_safe => exact fun r' v hp => SafeAt.mono (s := s) rfl hup (hs.proposed_safe r' v hp)
omit [DecidableEq A] in
theorem Sound.safeAt_of_picks (hs : Sound Q s) {v : V} {q : Set A} {rep : A → Option (ℕ × V)} (hq : q ∈ Q)
    (hrep : ∀ a ∈ q, (a,r,rep a) ∈ s.report) (hpick : Picks q rep v) : SafeAt Q s r v := by
  have hprom : ∀ a ∈ q, r ≤ s.promised a := fun a ha => hs.report_le a r _ (hrep a ha)
  rcases hpick with hnone | ⟨a,ha,c,hac,hmax⟩
  · refine ⟨q,hq,hprom,.inl fun b hb r' w hv => ?_⟩
    by_contra hlt
    obtain ⟨c,u,hbc,-⟩ := hs.report_covers b r _ r' w (hrep b hb) hv (by omega)
    rw [hnone b hb] at hbc
    cases hbc
  · obtain ⟨hvote,hcr⟩ := hs.report_mem a r c v (hac ▸ hrep a ha)
    rcases hcr.lt_or_eq with hlt | heq
    · refine ⟨q,hq,hprom,.inr ⟨c,hlt,fun b hb r' w hv => ?_,a,ha,hvote⟩⟩
      by_contra hgap
      obtain ⟨c',u,hbc,hle⟩ := hs.report_covers b r _ r' w (hrep b hb) hv (by omega)
      have := hmax b hb c' u hbc
      omega
    · -- the acceptor already voted in this very round, so `(r, v)` was proposed before
      subst heq
      exact hs.proposed_safe c v (hs.vote_proposed a c v hvote)
omit [DecidableEq A] in
theorem Sound.propose (hs : Sound Q s) {v : V} {q : Set A} {rep : A → Option (ℕ × V)} (hq : q ∈ Q)
    (hrep : ∀ a ∈ q, (a,r,rep a) ∈ s.report) (hpick : Picks q rep v)
    (hone : ∀ w, (r,w) ∈ s.proposed → w=v) :
    Sound Q { s with proposed := insert (r,v) s.proposed } := by
  constructor
  case vote_le => exact hs.vote_le
  case lastVote_mem => exact hs.lastVote_mem
  case vote_le_lastVote => exact hs.vote_le_lastVote
  case report_le => exact hs.report_le
  case report_mem => exact hs.report_mem
  case report_covers => exact hs.report_covers
  case vote_proposed => exact fun a r' w hv => .inr (hs.vote_proposed a r' w hv)
  case proposed_unique =>
    rintro r' w w' (hw | hw) (hw' | hw')
    · cases hw
      cases hw'
      rfl
    · cases hw
      exact (hone w' hw').symm
    · cases hw'
      exact hone w hw
    · exact hs.proposed_unique r' w w' hw hw'
  case proposed_safe =>
    rintro r' w (hw | hw)
    · cases hw
      exact hs.safeAt_of_picks hq hrep hpick
    · exact hs.proposed_safe r' w hw

theorem Sound.accept (hs : Sound Q s) (a : A) (r : ℕ) (v : V) (hprop : (r,v) ∈ s.proposed) (hr : s.promised a ≤ r) :
    Sound Q { s with
      promised := update s.promised a r
      lastVote := update s.lastVote a (some (r,v))
      vote := insert (a,r,v) s.vote } := by
  have hup := le_update_promised s hr
  constructor
  case vote_le =>
    rintro b r' w (heq | hold)
    · cases heq
      simp
    · exact (hs.vote_le b r' w hold).trans (hup b)
  case lastVote_mem =>
    intro b r' w hlast
    by_cases hb : b=a
    · subst hb
      simp only [Function.update_self,Option.some.injEq] at hlast
      exact .inl (by rw [hlast])
    · exact .inr (hs.lastVote_mem b r' w (by simpa [hb] using hlast))
  case vote_le_lastVote =>
    rintro b r' w (heq | hold)
    · cases heq
      exact ⟨r,v,by simp,le_rfl⟩
    · by_cases hb : b=a
      · subst hb
        exact ⟨r,v,by simp,(hs.vote_le b r' w hold).trans hr⟩
      · simpa [hb] using hs.vote_le_lastVote b r' w hold
  case report_le => exact fun b r' o ho => (hs.report_le b r' o ho).trans (hup b)
  case report_mem =>
    intro b r' c w ho
    obtain ⟨hmem,hle⟩ := hs.report_mem b r' c w ho
    exact ⟨.inr hmem,hle⟩
  case report_covers =>
    rintro b r' o r'' w ho (heq | hold) hlt
    · cases heq
      have := hs.report_le a r' o ho
      omega
    · exact hs.report_covers b r' o r'' w ho hold hlt
  case vote_proposed =>
    rintro b r' w (heq | hold)
    · cases heq
      exact hprop
    · exact hs.vote_proposed b r' w hold
  case proposed_unique => exact hs.proposed_unique
  case proposed_safe =>
    intro r' w hp
    obtain ⟨q,hq,hpr,hsafe⟩ := hs.proposed_safe r' w hp
    -- a member of `q` votes only in rounds it has not promised away
    have hnew : ∀ b ∈ q, ∀ r'' u, (b,r'',u)=(a,r,v) → r' ≤ r'' := by
      rintro b hb r'' u heq
      cases heq
      exact (hpr a hb).trans hr
    refine ⟨q,hq,fun b hb => (hpr b hb).trans (hup b),?_⟩
    rcases hsafe with hnone | ⟨c,hc,hgap,b,hb,hvote⟩
    · exact .inl fun b hb r'' u hv => hv.elim (hnew b hb r'' u) (hnone b hb r'' u)
    · exact .inr ⟨c,hc,fun b hb r'' u hv =>
        hv.elim (fun h => .inr (hnew b hb r'' u h)) (hgap b hb r'' u),b,hb,.inr hvote⟩

theorem Reachable.sound (h : Reachable Q s) : Sound Q s := by
  induction h with
  | init => exact sound_empty Q
  | step _ hst ih =>
    cases hst with
    | promise a r hr => exact ih.promise a r hr
    | propose r v q rep hq hrep hpick hone => exact ih.propose hq hrep hpick hone
    | accept a r v hprop hr => exact ih.accept a r v hprop hr

def Chosen (Q : Set (Set A)) (s : State A V) (r : ℕ) (v : V) : Prop := ∃ q ∈ Q, ∀ a ∈ q, (a,r,v) ∈ s.vote

section Agreement
variable {Q : Set (Set A)} (hQ : ∀ q ∈ Q, ∀ q' ∈ Q, (q ∩ q').Nonempty)
omit [DecidableEq A] in
include hQ in
theorem Sound.proposed_of_chosen {s : State A V} (hs : Sound Q s) {r r' : ℕ} {v w : V}
    (hv : Chosen Q s r v) (hw : (r',w) ∈ s.proposed) (hle : r ≤ r') : w=v := by
  obtain ⟨q,hq,hvotes⟩ := hv
  induction r' using Nat.strong_induction_on generalizing w with
  | _ r' ih =>
    obtain ⟨q',hq',-,hsafe⟩ := hs.proposed_safe r' w hw
    obtain ⟨a,haq,haq'⟩ := hQ q hq q' hq'
    have ha := hvotes a haq
    rcases hle.lt_or_eq with hlt | rfl
    · rcases hsafe with hnone | ⟨c,hc,hgap,b,hb,hvote⟩
      · have := hnone a haq' r v ha
        omega
      · have hrc : r ≤ c := by
          have := hgap a haq' r v ha
          omega
        exact ih c hc (hs.vote_proposed b c w hvote) hrc
    · exact hs.proposed_unique r w v hw (hs.vote_proposed a r v ha)
omit [DecidableEq A] in
include hQ in
theorem Sound.chosen_unique {s : State A V} (hs : Sound Q s) {r r' : ℕ} {v w : V}
    (hv : Chosen Q s r v) (hw : Chosen Q s r' w) : v=w := by
  have proposed {r : ℕ} {v : V} (h : Chosen Q s r v) : (r,v) ∈ s.proposed := by
    obtain ⟨q,hq,hvotes⟩ := h
    obtain ⟨a,ha,-⟩ := hQ q hq q hq
    exact hs.vote_proposed a r v (hvotes a ha)
  rcases le_total r r' with hle | hle
  · exact (hs.proposed_of_chosen hQ hv (proposed hw) hle).symm
  · exact hs.proposed_of_chosen hQ hw (proposed hv) hle
end Agreement
omit [DecidableEq A] in
theorem Chosen.mono (hsub : s.vote ⊆ t.vote) {v : V} (h : Chosen Q s r v) : Chosen Q t r v := by
  obtain ⟨q,hq,hvotes⟩ := h
  exact ⟨q,hq,fun a ha => hsub (hvotes a ha)⟩
end P4Benchmarks.Lib.Paxos
