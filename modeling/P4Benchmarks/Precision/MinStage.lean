import Mathlib.Data.BitVec
/-!
# The stage with the smaller counter

`PRECISION.p4`: two stages of counters.  A packet of a flow that neither holds may be resubmitted, to
take the place of the flow with the smaller counter.
-/
namespace P4Benchmarks.Precision
open List Function
scoped instance neZero_four : NeZero 4 := ⟨by decide⟩

abbrev FlowId := Fin 4 → BitVec 32

structure Stage where
  flowid : Fin 4 → BitVec 16 → BitVec 32
  counter : BitVec 16 → BitVec 32

/-- What a pass does in one stage, whether it found the flow ID there, and the counter it has then. -/
@[local simp] def Stage.pass (s : Stage) (loc : BitVec 16) (f : FlowId) (looksUp writes : Bool) : Stage × Bool × BitVec 32 :=
  let found := looksUp&&decide (∀ i, s.flowid i loc=f i)
  let value := if writes || found then s.counter loc+1 else s.counter loc
  (⟨fun i => if writes then update (s.flowid i) loc (f i) else s.flowid i, update s.counter loc value⟩,found,value)

def getMinStage (diff : BitVec 32) : BitVec 8 := if diff>0x7fffff then 1 else 2

def chooseStage (counterRead1 counterRead2 : BitVec 32) : BitVec 8 × BitVec 32 :=
  let minStage := getMinStage (counterRead1-counterRead2)
  (minStage,if minStage=1 then counterRead1 else if minStage=2 then counterRead2 else 0)

abbrev Entropy := BitVec 32 × BitVec 12

structure Config where
  hash1 : FlowId → BitVec 16
  hash2 : FlowId → BitVec 16
  betterApproximation : BitVec 32 → Entropy → Bool

structure Switch where
  stage1 : Stage
  stage2 : Stage
  resubmitted : List (FlowId × BitVec 8)

@[local simp] def Switch.start : Switch := ⟨⟨fun _ _ => 0,fun _ => 0⟩,⟨fun _ _ => 0,fun _ => 0⟩,[]⟩

structure Metadata where
  matchedAtStage1 : Bool
  matchedAtStage2 : Bool
  minStage : BitVec 8
  cMin : BitVec 32
  resubmitType : Bool
  dstAddr : BitVec 48
variable (cfg : Config)
@[local simp] def ingress (s : Switch) (f : FlowId) (resubmitted : Option (BitVec 8))
    (entropy : Entropy) : Switch × Metadata :=
  let r1 := s.stage1.pass (cfg.hash1 f) f resubmitted.isNone (resubmitted==some 1)
  let r2 := s.stage2.pass (cfg.hash2 f) f (resubmitted.isNone&&!r1.2.1) (resubmitted==some 2)
  let choice := chooseStage r1.2.2 r2.2.2
  ({ s with stage1 := r1.1, stage2 := r2.1 },
    { matchedAtStage1 := r1.2.1
      matchedAtStage2 := r2.2.1
      minStage := choice.1
      cMin := choice.2
      resubmitType := resubmitted.isNone&&!r1.2.1&&!r2.2.1&&cfg.betterApproximation choice.2 entropy
      dstAddr := if r1.2.1 then r1.2.2.setWidth 48 else if r2.2.1 then r2.2.2.setWidth 48 else 0 })

inductive Event
  | packet (f : FlowId) (entropy : Entropy)
  | resubmission (i : Nat) (entropy : Entropy)

@[local simp] def Event.isPacket : Event → Bool
  | packet .. => true
  | resubmission .. => false

def step (s : Switch) : Event → Switch
  | .packet f entropy =>
    let r := ingress cfg s f none entropy
    { r.1 with
      resubmitted := s.resubmitted++if r.2.resubmitType then [(f,r.2.minStage)] else [] }
  | .resubmission i entropy =>
    match s.resubmitted[i]? with
    | some (f,minStage) =>
      { (ingress cfg s f (some minStage) entropy).1 with resubmitted := s.resubmitted.eraseIdx i }
    | none => s

def run (es : List Event) : Switch := es.foldl (step cfg) .start

section
variable {s : Stage} {loc : BitVec 16} {f : FlowId} {looksUp writes : Bool}
theorem Stage.pass_value (h : (s.pass loc f looksUp false).2.1=false) :
    (s.pass loc f looksUp false).2.2=s.counter loc := by
  unfold pass at h ⊢
  dsimp only at h ⊢
  rw [h]
  rfl

theorem Stage.pass_counter {again : Bool} {l : BitVec 16} {n m k k' : Nat} (hn : (s.counter l).toNat+k≤n)
    (hm : n+k'+1 ≤ m+k+again.toNat) (h : again → writes=false ∧ (s.pass loc f looksUp writes).2.1=false) :
    ((s.pass loc f looksUp writes).1.counter l).toNat+k' ≤ m := by
  change (update s.counter loc (s.pass loc f looksUp writes).2.2 l).toNat+_≤_
  rw [Function.update_apply]
  have hagain := again.toNat_le
  split_ifs with hl
  · subst hl
    cases again with
    | true =>
      obtain ⟨rfl,hfound⟩ := h rfl
      rw [pass_value hfound]
      omega
    | false =>
      have hincr : (s.counter l+1).toNat≤(s.counter l).toNat+1 := Nat.mod_le _ _
      change n+k'+1 ≤ m+k at hm
      unfold pass
      dsimp only
      split_ifs <;> omega
  · omega
end
variable {cfg : Config} {s : Switch} {n : Nat}
/-- A packet adds one to a counter, or is resubmitted and then adds one when it comes back. -/
structure Switch.Within (s : Switch) (n : Nat) : Prop where
  stage1 : ∀ l, (s.stage1.counter l).toNat+s.resubmitted.length≤n
  stage2 : ∀ l, (s.stage2.counter l).toNat+s.resubmitted.length≤n
namespace Switch.Within
variable (h : s.Within n)
include h
theorem pass {f : FlowId} {back : Option (BitVec 8)} {entropy : Entropy} {l : List (FlowId × BitVec 8)}
    {m : Nat} (hlen : n+l.length+1 ≤ m+s.resubmitted.length+(ingress cfg s f back entropy).2.resubmitType.toNat) :
    { (ingress cfg s f back entropy).1 with resubmitted := l : Switch }.Within m := by
  have hagain (h : (ingress cfg s f back entropy).2.resubmitType) : back=none ∧
      (ingress cfg s f back entropy).2.matchedAtStage1=false ∧
      (ingress cfg s f back entropy).2.matchedAtStage2=false := by
    simp only [ingress,Bool.and_eq_true,Bool.not_eq_true',Option.isNone_iff_eq_none] at h
    exact ⟨h.1.1.1,h.1.1.2,h.1.2⟩
  refine ⟨fun loc => Stage.pass_counter (h.stage1 loc) hlen fun hb => ?_,
    fun loc => Stage.pass_counter (h.stage2 loc) hlen fun hb => ?_⟩
  · obtain ⟨rfl,h1,-⟩ := hagain hb
    exact ⟨rfl,h1⟩
  · obtain ⟨rfl,-,h2⟩ := hagain hb
    exact ⟨rfl,h2⟩

theorem step (e : Event) : (step cfg s e).Within (n+e.isPacket.toNat) := by
  cases e with
  | packet f entropy =>
    refine h.pass ?_
    rw [length_append]
    cases (ingress cfg s f none entropy).2.resubmitType with
    | false =>
      change n+(_+0)+1≤n+1+_+0
      omega
    | true =>
      change n+(_+1)+1≤n+1+_+1
      omega
  | resubmission i entropy =>
    unfold Precision.step
    dsimp only
    split
    · rename_i f minStage hi
      have hlen := length_eraseIdx_add_one (List.getElem?_eq_some_iff.mp hi).1
      exact h.pass (by dsimp only [Event.isPacket,Bool.toNat]; omega)
    · exact h
end Switch.Within

theorem run_within (cfg : Config) (es : List Event) : (run cfg es).Within (es.countP Event.isPacket) := by
  induction es using reverseRecOn with
  | nil => exact ⟨fun _ => le_rfl,fun _ => le_rfl⟩
  | append_singleton es e ih =>
    rw [run,foldl_append,countP_append]
    have hnext : (step cfg (run cfg es) e).Within (es.countP Event.isPacket+e.isPacket.toNat) := ih.step e
    cases e <;> exact hnext

def Picks (c1 c2 : BitVec 32) (choice : BitVec 8 × BitVec 32) : Prop :=
  (choice.1=1 ∧ c1 ≤ c2 ∨ choice.1=2 ∧ c2 ≤ c1) ∧ choice.2.toNat=min c1.toNat c2.toNat

theorem picks_chooseStage {a b : BitVec 32} (ha : a.toNat<2^31) (hb : b.toNat<2^31) :
    Picks a b (chooseStage a b) ↔ a.toNat≤b.toNat+0x7fffff := by
  have hdiff : a-b>0x7fffff ↔ a.toNat<b.toNat ∨ b.toNat+0x7fffff<a.toNat := by
    rw [gt_iff_lt,BitVec.lt_def,BitVec.toNat_sub]
    change 0x7fffff<_ ↔ _
    omega
  have hstage : getMinStage (a-b)=if a.toNat<b.toNat ∨ b.toNat+0x7fffff<a.toNat then 1 else 2 :=
    if_congr hdiff rfl rfl
  simp only [Picks,chooseStage,hstage,BitVec.le_def]
  by_cases hfirst : a.toNat<b.toNat ∨ b.toNat+0x7fffff<a.toNat
  · simp [hfirst]
    omega
  · simp [hfirst]
    omega

/-- For a packet that matches in no stage the choice is right exactly if the first counter is not
ahead by 2²³ or more. -/
theorem picks_iff (cfg : Config) (es : List Event) (hes : es.countP Event.isPacket<2^31) (f : FlowId)
    (entropy : Entropy) (m : Metadata) (hm : (ingress cfg (run cfg es) f none entropy).2=m)
    (h1 : m.matchedAtStage1=false) (h2 : m.matchedAtStage2=false) :
    Picks ((run cfg es).stage1.counter (cfg.hash1 f)) ((run cfg es).stage2.counter (cfg.hash2 f)) (m.minStage,m.cMin) ↔
    ((run cfg es).stage1.counter (cfg.hash1 f)).toNat ≤ ((run cfg es).stage2.counter (cfg.hash2 f)).toNat+0x7fffff := by
  subst hm
  have hc1 := (run_within cfg es).stage1 (cfg.hash1 f)
  have hc2 := (run_within cfg es).stage2 (cfg.hash2 f)
  have hread1 : (Stage.pass _ (cfg.hash1 f) f true false).2.2=_ := Stage.pass_value h1
  have hread2 : (Stage.pass _ (cfg.hash2 f) f _ false).2.2=_ := Stage.pass_value h2
  have hpicks := picks_chooseStage (Nat.lt_of_le_of_lt (Nat.le_of_add_right_le hc1) hes)
    (Nat.lt_of_le_of_lt (Nat.le_of_add_right_le hc2) hes)
  rw [← congrArg₂ chooseStage hread1 hread2] at hpicks
  exact hpicks

def crc16 {n : Nat} (poly : BitVec 16) (data : BitVec n) : BitVec 16 :=
  (range n).foldl (fun r i => if r.msb != data.getMsbD i then r<<<1^^^poly else r<<<1) 0

/-- The hash functions of the program, with the seeds it starts with, and no packet that is resubmitted. -/
def tofino : Config where
  hash1 f := crc16 0x8005 (0#3++f 0++0#3++f 1++0#3++f 2++f 3)
  hash2 f := crc16 0x3d65 (0#5++f 0++0#2++f 1++0#2++f 2++0#1++f 3)
  betterApproximation _ _ := false

theorem run_zero (n : Nat) : run tofino (replicate n (.packet 0 (0,0))) =
    { Switch.start with
      stage1 := ⟨fun _ _ => 0,update (fun _ => 0) (tofino.hash1 0) (.ofNat 32 n)⟩ } := by
  induction n with
  | zero => simp [run]
  | succ n ih =>
    rw [replicate_succ',run,foldl_append,foldl_cons,foldl_nil,← run,ih]
    simp [step,BitVec.ofNat_add]

/-- Protocol 24 and VLAN 5: the first hash of this flow is that of the zeros. -/
def colliding : FlowId := fun i => if i=3 then 0x18005000 else 0

/-- Three packets were counted in the first stage, where the flow has its place, and none in the second. -/
theorem picks_colliding_three : let es := replicate 3 (.packet 0 (0,0))
    let m := (ingress tofino (run tofino es) colliding none (0,0)).2
    (run tofino es).stage1.counter (tofino.hash1 colliding) = 3 ∧
      (run tofino es).stage2.counter (tofino.hash2 colliding) = 0 ∧
      Picks ((run tofino es).stage1.counter (tofino.hash1 colliding))
        ((run tofino es).stage2.counter (tofino.hash2 colliding)) (m.minStage,m.cMin) := by
  have hhash : tofino.hash1 colliding = tofino.hash1 0 := by decide +kernel
  have hne : ¬∀ i, 0#32 = colliding i := by decide
  have h1 : (run tofino (replicate 3 (.packet 0 (0,0)))).stage1.counter (tofino.hash1 colliding) = 3 := by
    rw [run_zero,hhash]
    simp
  have h2 : (run tofino (replicate 3 (.packet 0 (0,0)))).stage2.counter (tofino.hash2 colliding) = 0 := by
    rw [run_zero]
    rfl
  refine ⟨h1,h2,(picks_iff tofino _ (by decide) colliding (0,0) _ rfl ?_ ?_).mpr (by rw [h1,h2]; decide)⟩
  · rw [run_zero]
    simp [hne]
  · rw [run_zero]
    simp [hne]

theorem not_picks_colliding : let es := replicate 0x800000 (.packet 0 (0,0))
    let m := (ingress tofino (run tofino es) colliding none (0,0)).2
    es.countP Event.isPacket<2^31 ∧ m.matchedAtStage1=false ∧ m.matchedAtStage2=false ∧
      ¬ Picks ((run tofino es).stage1.counter (tofino.hash1 colliding))
        ((run tofino es).stage2.counter (tofino.hash2 colliding)) (m.minStage,m.cMin) := by
  have hhash : tofino.hash1 colliding=tofino.hash1 0 := by decide +kernel
  have hne : ¬∀ i, 0#32=colliding i := by decide
  dsimp only
  rw [run_zero,countP_replicate,hhash]
  simp [hhash,hne]
  unfold Picks
  decide
end P4Benchmarks.Precision
