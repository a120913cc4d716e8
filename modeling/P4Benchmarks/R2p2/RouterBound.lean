import P4Benchmarks.Lib.BucketQueue
import P4Benchmarks.Lib.Execution
import P4Benchmarks.R2p2.Router
/-!
# The bound on outstanding requests

The groups of `fc_fw_main` are a bucket queue of the workers by their free slots.  A fixed-route
request takes a slot of worker 0 without moving it to another group.
-/
namespace P4Benchmarks.R2p2
open Lib Function Nat
namespace Router
variable {ρ : Type} {cfg : RouterConfig} {s : Router ρ} {w : Nat}
structure Accounts (cfg : RouterConfig) (s : Router ρ) : Prop where
  tokens_eq : ∀ w < cfg.workerCount, s.tokens w+.ofNat 64 (s.outstanding w) = s.sent w+.ofNat 64 cfg.perQueueSlots
  outstanding_le : ∀ w < cfg.workerCount, s.outstanding w ≤ cfg.perQueueSlots+2^31
  free_le : ∀ w < cfg.workerCount, 0 < s.free w → s.free w+s.outstanding w ≤ cfg.perQueueSlots

theorem free_sendToWorker (s : Router ρ) (w : Nat) : (s.sendToWorker w).free=update s.free w (s.free w-1) := by
  funext v
  by_cases hv : v=w
  · subst hv
    simp only [free,sendToWorker,update_self]
    omega
  · simp [free,sendToWorker,update_of_ne hv]

theorem free_readSlots (hsince : s.sentSince w=0) : (s.readSlots cfg w).free=update s.free w (s.availOf w) := by
  have hsnapshot : (s.readSlots cfg w).snapshot=update s.snapshot w (s.availOf w) ∧
      (s.readSlots cfg w).sentSince=s.sentSince := by
    rw [readSlots]
    split_ifs <;> exact ⟨rfl,rfl⟩
  funext v
  rw [free,hsnapshot.1,hsnapshot.2]
  by_cases hv : v=w
  · rw [hv,update_self,update_self,hsince]
    omega
  · rw [update_of_ne hv,update_of_ne hv]
    rfl

theorem free_forward (s : Router ρ) (i : Nat) : (s.forward cfg i).free=(s.sendToWorker (s.nextOfGroup cfg i)).free := by
  rw [forward]
  split_ifs <;> rfl

theorem pc_forward (cfg : RouterConfig) (s : Router ρ) (i : Nat) : (s.forward cfg i).pc=s.pc := by
  rw [forward]
  split_ifs <;> rfl

theorem idleSlots_forward (s : Router ρ) (i : Nat) : (s.forward cfg i).idleSlots=s.idleSlots := by
  rw [forward]
  split_ifs <;> rfl

theorem groupIdx_forward (s : Router ρ) (i : Nat) :
    (s.forward cfg i).groupIdx=update s.groupIdx i (s.groupIdx i+1) := by
  rw [forward]
  split_ifs <;> rfl

theorem targetGroupCount_forward (s : Router ρ) {i j : Nat} (hij : i≤j) :
    (s.forward cfg i).targetGroupCount j=s.targetGroupCount j := by
  rw [forward]
  split_ifs with hpos
  · exact update_of_ne (by omega) _ _
  · rfl

theorem toInt_sub_of_add_eq {x y : BitVec 64} {m n : Nat} (h : x+.ofNat 64 n=y+.ofNat 64 m) (hm : m<2^31)
    (hn : n ≤ m+2^31) : ((x-y).setWidth 32).toInt=m-n := by
  have hsub : x-y=.ofNat 64 m-.ofNat 64 n := by bv_omega
  rw [hsub,BitVec.toInt_setWidth,BitVec.toNat_sub,BitVec.toNat_ofNat,BitVec.toNat_ofNat,Int.bmod_def]
  omega
namespace Accounts
variable (h : s.Accounts cfg)
include h
theorem availOf_eq (hw : w < cfg.workerCount) : s.availOf w=cfg.perQueueSlots-s.outstanding w  :=
  toInt_sub_of_add_eq (h.tokens_eq w hw) cfg.slots_lt (h.outstanding_le w hw)

theorem sendToWorker (hle : w < cfg.workerCount → s.outstanding w < cfg.perQueueSlots+2^31) :
    (s.sendToWorker w).Accounts cfg := by
  refine ⟨fun v hv => ?_,fun v hv => ?_,fun v hv => ?_⟩
  · by_cases hvw : v=w
    · subst hvw
      have heq := h.tokens_eq v hv
      simp only [Router.sendToWorker,update_self]
      rw [BitVec.ofNat_add,← BitVec.add_assoc,heq]
      ac_rfl
    · simp only [Router.sendToWorker,update_of_ne hvw]
      exact h.tokens_eq v hv
  · by_cases hvw : v=w
    · subst hvw
      simp only [Router.sendToWorker,update_self]
      exact hle hv
    · simp only [Router.sendToWorker,update_of_ne hvw]
      exact h.outstanding_le v hv
  · intro hpos
    rw [free_sendToWorker] at hpos ⊢
    have hfree := h.free_le v hv
    by_cases hvw : v=w
    · subst hvw
      simp only [Router.sendToWorker,update_self] at hpos ⊢
      omega
    · simp only [Router.sendToWorker,update_of_ne hvw] at hpos ⊢
      exact hfree hpos

theorem feedback {src : Target} (hsrc : cfg.targets[w]?=some src) (hpos : s.outstanding w≠0) :
    Accounts cfg { s.updateTokens cfg src with
      outstanding := update s.outstanding w (s.outstanding w-1) } := by
  have hfind : cfg.targets.findIdx (·==src)=w := by
    obtain ⟨hw,hget⟩ := List.getElem?_eq_some_iff.mp hsrc
    rw [← hget]
    exact cfg.targets_nodup.idxOf_getElem w hw
  refine ⟨fun v hv => ?_,fun v hv => ?_,fun v hv hfree => ?_⟩
  · by_cases hvw : v=w
    · subst hvw
      have heq := h.tokens_eq v hv
      rw [show s.outstanding v=s.outstanding v-1+1 by omega,BitVec.ofNat_add] at heq
      simp only [updateTokens,hfind,update_self]
      rw [← heq,BitVec.add_assoc,BitVec.add_comm 1]
      rfl
    · simp only [updateTokens,hfind,update_of_ne hvw]
      exact h.tokens_eq v hv
  · have hle := h.outstanding_le v hv
    by_cases hvw : v=w
    · subst hvw
      simp only [update_self]
      omega
    · simp only [update_of_ne hvw]
      exact hle
  · have hle := h.free_le v hv hfree
    by_cases hvw : v=w
    · subst hvw
      simp only [update_self]
      show s.free v+_≤_
      omega
    · simp only [update_of_ne hvw]
      exact hle

theorem clearGroups : s.clearGroups.Accounts cfg where
  __ := h
  free_le _ _ hpos := absurd hpos (Int.lt_irrefl 0)

theorem congr {s' : Router ρ} (htokens : s'.tokens=s.tokens) (hsent : s'.sent=s.sent)
    (hout : s'.outstanding=s.outstanding) (hfree : s'.free=s.free) : s'.Accounts cfg := by
  refine ⟨?_,?_,?_⟩
  · rw [htokens,hsent,hout]
    exact h.tokens_eq
  · rw [hout]
    exact h.outstanding_le
  · rw [hout,hfree]
    exact h.free_le

theorem readSlots (hw : w < cfg.workerCount) (hsince : s.sentSince w=0) : (s.readSlots cfg w).Accounts cfg := by
  have hframe : (s.readSlots cfg w).tokens=s.tokens ∧ (s.readSlots cfg w).sent=s.sent ∧
      (s.readSlots cfg w).outstanding=s.outstanding := by
    rw [Router.readSlots]
    split_ifs <;> exact ⟨rfl,rfl,rfl⟩
  obtain ⟨htokens,hsent,hout⟩ := hframe
  refine ⟨?_,?_,fun v hv hpos => ?_⟩
  · rw [htokens,hsent,hout]
    exact h.tokens_eq
  · rw [hout]
    exact h.outstanding_le
  · rw [free_readSlots hsince] at hpos ⊢
    rw [hout]
    by_cases hvw : v=w
    · rw [hvw,update_self,h.availOf_eq hw]
      omega
    · rw [update_of_ne hvw] at hpos ⊢
      exact h.free_le v hv hpos

theorem forward {i : Nat} (hle : s.nextOfGroup cfg i < cfg.workerCount →
      s.outstanding (s.nextOfGroup cfg i) < cfg.perQueueSlots+2^31) :
    (s.forward cfg i).Accounts cfg := by
  refine (h.sendToWorker hle).congr ?_ ?_ ?_ (free_forward s i)
  all_goals
    rw [Router.forward]
    split_ifs <;> rfl
end Accounts

structure Grouped (cfg : RouterConfig) (s : Router ρ) : Prop where
  buckets : Buckets cfg.workerCount cfg.perQueueSlots s.targetGroup s.targetGroupCount s.groupIdx s.free
  idle_eq : s.idleSlots = if cfg.perQueueSlots=0 then 0 else
    (s.targetGroupCount (cfg.perQueueSlots-1) : Int)-s.groupIdx (cfg.perQueueSlots-1)
  refresh : ∀ k, s.pc=.refresh k → (∀ w, s.sentSince w=0) ∧ (∀ w, k≤w → s.snapshot w=0) ∧ ∀ i < cfg.perQueueSlots, ∀ w ∈
        rowItems cfg.workerCount s.targetGroup s.targetGroupCount i, w<k
  idle : s.pc=.idle → 0 < cfg.perQueueSlots
  avail : ∀ i, s.pc=.avail i → i+1 < cfg.perQueueSlots ∧ ∀ w < cfg.workerCount, s.free w ≤ i+1
namespace Grouped
theorem forward_buckets (h : s.Grouped cfg) {i : Nat} (hi : i < cfg.perQueueSlots)
    (hlt : s.groupIdx i < s.targetGroupCount i) :
    Buckets cfg.workerCount cfg.perQueueSlots (s.forward cfg i).targetGroup
      (s.forward cfg i).targetGroupCount (s.forward cfg i).groupIdx (s.forward cfg i).free := by
  obtain ⟨hw,hlevel⟩ := h.buckets.level_head hi hlt
  have hpop := h.buckets.pop hi hlt
  rw [free_forward,free_sendToWorker]
  change s.nextOfGroup cfg i < cfg.workerCount at hw
  change s.free (s.nextOfGroup cfg i)=i+1 at hlevel
  change Buckets _ _ _ _ _ (update s.free (s.nextOfGroup cfg i) 0) at hpop
  rw [hlevel]
  cases i with
  | zero => exact hpop
  | succ i =>
    have hbelow : ∀ j < cfg.perQueueSlots, s.nextOfGroup cfg (i+1) ∈
        rowItems cfg.workerCount s.targetGroup s.targetGroupCount j → i<j := by
      intro j hj hmem
      have := h.buckets.level_le j hj _ hmem
      omega
    have hpush := hpop.push (lt_of_succ_lt hi) hw (by simp) hbelow
    have hint : ((i+1 : Nat) : Int)+1-1=i+1 := by omega
    rw [update_idem] at hpush
    rw [hint,forward,if_pos (succ_pos i)]
    exact hpush

theorem leave {pc : RouterPc} (h : s.Grouped cfg) (hrefresh : ∀ k, pc≠.refresh k)
    (hidle : pc=.idle → 0 < cfg.perQueueSlots)
    (havail : ∀ i, pc=.avail i → i+1 < cfg.perQueueSlots ∧ ∀ w < cfg.workerCount, s.free w ≤ i+1) :
    Grouped cfg { s with pc := pc } where
  __ := h
  refresh k hk := absurd hk (hrefresh k)
  idle := hidle
  avail := havail

theorem free_lt_of_no_idle (h : s.Grouped cfg) (haccounts : s.Accounts cfg) (hidle : s.idleSlots=0)
    (hpos : 0 < cfg.perQueueSlots) (hw : w < cfg.workerCount) : s.free w < cfg.perQueueSlots := by
  have heq := h.idle_eq
  have hne := h.buckets.level_ne_of_empty (sub_one_lt_of_lt hpos) (by omega) hw
  have hle := haccounts.free_le w hw
  omega

theorem afterDirect (h : s.Grouped cfg) (haccounts : s.Accounts cfg) :
    Grouped cfg { s with pc := s.afterDirect cfg } := by
  rw [Router.afterDirect]
  split_ifs with hidle havail
  · refine h.leave nofun (fun _ => ?_) nofun
    by_contra hzero
    have heq := h.idle_eq
    rw [if_pos (by omega)] at heq
    exact hidle heq
  · refine h.leave nofun nofun fun i hi => ?_
    cases hi
    refine ⟨by omega,fun w hw => ?_⟩
    have := h.free_lt_of_no_idle haccounts (not_not.mp hidle) (by omega) hw
    omega
  · exact h.leave nofun nofun nofun

theorem clearGroups (s : Router ρ) : s.clearGroups.Grouped cfg where
  buckets := .empty fun _ _ => Int.le_refl 0
  idle_eq := by split_ifs <;> rfl
  refresh k hk := by
    cases hk
    exact ⟨fun _ => rfl,fun _ _ => rfl,fun i _ w hw => absurd hw List.not_mem_nil⟩
  idle := nofun
  avail := nofun
variable (h : s.Grouped cfg)
include h
theorem sendDirect (hpc : s.pc=.direct) (hfull : s.free 0≤0)
    (pending : List ρ) : Grouped cfg { s.sendToWorker 0 with pendingDirect := pending } where
  buckets := by
    refine h.buckets.congr fun w _ => ?_
    change (s.sendToWorker 0).free w=s.free w ∨ s.free w≤0 ∧ (s.sendToWorker 0).free w≤0
    rw [free_sendToWorker]
    by_cases hw : w=0
    · rw [hw,update_self]
      omega
    · rw [update_of_ne hw]
      exact .inl rfl
  idle_eq := h.idle_eq
  refresh k hk := absurd (hpc.symm.trans hk) nofun
  idle hk := absurd (hpc.symm.trans hk) nofun
  avail i hk := absurd (hpc.symm.trans hk) nofun

theorem readSlots (haccounts : s.Accounts cfg) {k : Nat} (hpc : s.pc=.refresh k) (hk : k < cfg.workerCount) :
    Grouped cfg { s.readSlots cfg k with pc := .refresh (k+1) } := by
  obtain ⟨hsince,hsnapshot,hrows⟩ := h.refresh k hpc
  have hfree : s.free k=0 := by
    rw [free,hsince k,hsnapshot k (Nat.le_refl k)]
    rfl
  have havail := haccounts.availOf_eq hk
  have hlater (w : Nat) (hw : k+1≤w) : update s.snapshot k (s.availOf k) w=0 := by
    rw [update_of_ne (by omega)]
    exact hsnapshot w (by omega)
  have hlevel : ∀ s', s'=s.readSlots cfg k → s'.free=update s.free k (s.availOf k) := by
    rintro s' rfl
    exact free_readSlots (hsince k)
  by_cases hnone : s.availOf k<1
  · have heq : s.readSlots cfg k =
        { s with snapshot := update s.snapshot k (s.availOf k) } := if_pos hnone
    rw [heq]
    refine ⟨?_,h.idle_eq,fun k' hk' => ?_,nofun,nofun⟩
    · refine h.buckets.congr fun w _ => ?_
      change Router.free { s with snapshot := _ } w=s.free w ∨ s.free w≤0 ∧ Router.free { s with snapshot := _ } w≤0
      rw [hlevel _ heq.symm]
      by_cases hw : w=k
      · rw [hw,update_self]
        omega
      · rw [update_of_ne hw]
        exact .inl rfl
    · cases hk'
      refine ⟨hsince,hlater,fun i hi w hw => ?_⟩
      exact lt_succ_of_lt (hrows i hi w hw)
  · have hi : (s.availOf k-1).toNat < cfg.perQueueSlots := by omega
    have hint : (((s.availOf k-1).toNat : Nat) : Int)+1=s.availOf k := by omega
    have hnew (j : Nat) (hj : j < cfg.perQueueSlots)
        (hmem : k ∈ rowItems cfg.workerCount s.targetGroup s.targetGroupCount j) :
        (s.availOf k-1).toNat<j :=
      absurd (hrows j hj k hmem) (Nat.lt_irrefl k)
    have hpush := h.buckets.push hi hk (Int.le_of_eq hfree) hnew
    have hroom := h.buckets.count_lt hi hk fun hmem => Nat.lt_irrefl _ (hrows _ hi k hmem)
    have heq : s.readSlots cfg k={ s.addToGroup cfg (s.availOf k-1).toNat k with
        availSlots := s.availSlots+s.availOf k
        idleSlots := if s.availOf k=cfg.perQueueSlots then s.idleSlots+1 else s.idleSlots
        snapshot := update s.snapshot k (s.availOf k) } := if_neg hnone
    rw [hint,← hlevel _ heq.symm] at hpush
    rw [heq]
    refine ⟨hpush,?_,fun k' hk' => ?_,nofun,nofun⟩
    · have hidle := h.idle_eq
      by_cases hall : s.availOf k=cfg.perQueueSlots
      · have hrow : (s.availOf k-1).toNat=cfg.perQueueSlots-1 := by omega
        simp only [addToGroup,hrow,update_self,if_pos hall]
        omega
      · have hrow : cfg.perQueueSlots-1≠(s.availOf k-1).toNat := by omega
        simp only [addToGroup,update_of_ne hrow,if_neg hall]
        exact hidle
    · cases hk'
      refine ⟨hsince,hlater,fun i' hi' w hw => ?_⟩
      rcases h.buckets.mem_rowItems_push hroom hi' hw with hw | rfl
      · exact lt_succ_of_lt (hrows i' hi' w hw)
      · exact lt_succ_self w

theorem forwardIdle (hpc : s.pc=.idle)
    (hlt : s.groupIdx (cfg.perQueueSlots-1) < s.targetGroupCount (cfg.perQueueSlots-1)) :
    Grouped cfg { s.forward cfg (cfg.perQueueSlots-1) with idleSlots := s.idleSlots-1 } := by
  have hpos := h.idle hpc
  have hpc' := (pc_forward cfg s (cfg.perQueueSlots-1)).trans hpc
  refine ⟨h.forward_buckets (sub_one_lt_of_lt hpos) hlt,?_,fun k hk => ?_,fun _ => hpos, fun i hi => ?_⟩
  · have hidle := h.idle_eq
    simp only [targetGroupCount_forward _ (Nat.le_refl _),groupIdx_forward,update_self]
    omega
  · exact absurd (hpc'.symm.trans hk) nofun
  · exact absurd (hpc'.symm.trans hi) nofun

theorem forwardAvail {i : Nat} (hpc : s.pc=.avail i)
    (hlt : s.groupIdx i < s.targetGroupCount i) : (s.forward cfg i).Grouped cfg := by
  obtain ⟨hi,hmax⟩ := h.avail i hpc
  have hpc' := (pc_forward cfg s i).trans hpc
  refine ⟨h.forward_buckets (by omega) hlt,?_,fun k hk => ?_,fun hk => ?_,fun i' hi' => ?_⟩
  · have hidle := h.idle_eq
    rw [targetGroupCount_forward _ (by omega),groupIdx_forward,update_of_ne (by omega),idleSlots_forward]
    exact hidle
  · exact absurd (hpc'.symm.trans hk) nofun
  · exact absurd (hpc'.symm.trans hk) nofun
  · obtain rfl := RouterPc.avail.inj (hpc'.symm.trans hi')
    refine ⟨hi,fun w hw => ?_⟩
    have hle := hmax w hw
    rw [free_forward,free_sendToWorker]
    by_cases hwi : w=s.nextOfGroup cfg i
    · rw [← hwi,update_self]
      omega
    · rw [update_of_ne hwi]
      exact hle
end Grouped

/-- Fixed-route requests are sent only while worker 0 has no free slot left in the groups, and while
`tokens[0] - sent[0]` is an `int`. -/
def SparesGroups (cfg : RouterConfig) (s : Router ρ) : RouterEvent ρ → Prop
  | .run => s.pc=.direct → s.pendingDirect≠[] →
    s.free 0≤0 ∧ s.outstanding 0 < cfg.perQueueSlots+2^31
  | _ => True

instance SparesGroups.decidable (cfg : RouterConfig) (s : Router ρ) : ∀ e, Decidable (s.SparesGroups cfg e)
  | .arrive .. | .feedback _ => .isTrue trivial
  | .run =>
    have : Decidable (s.pendingDirect≠[]) :=
      match s.pendingDirect with
      | [] => .isFalse fun h => h rfl
      | _::_ => .isTrue nofun
    show Decidable (s.pc=.direct → s.pendingDirect≠[] → _) from inferInstance

structure Fair (cfg : RouterConfig) (s : Router ρ) : Prop where
  accounts : s.Accounts cfg
  grouped : s.Grouped cfg

theorem fair_init (cfg : RouterConfig) : (init cfg : Router ρ).Fair cfg where
  accounts :=
    { tokens_eq := fun _ _ => by
        show .ofNat 64 cfg.perQueueSlots+0#64=0#64+.ofNat 64 cfg.perQueueSlots
        rw [BitVec.add_zero,BitVec.zero_add]
      outstanding_le := fun _ _ => Nat.zero_le _
      free_le := fun _ _ hpos => absurd hpos (Int.lt_irrefl 0) }
  grouped :=
    { buckets := .empty fun _ _ => Int.le_refl 0
      idle_eq := by split_ifs <;> rfl
      refresh := nofun
      idle := nofun
      avail := nofun }
namespace Fair
variable (h : s.Fair cfg)
include h
theorem leave {pc : RouterPc} (hgrouped : Grouped cfg { s with pc := pc }) : Fair cfg { s with pc := pc } :=
  ⟨h.accounts.congr rfl rfl rfl rfl,hgrouped⟩

theorem outstanding_nextOfGroup {i : Nat} (hi : i < cfg.perQueueSlots) (hlt : s.groupIdx i < s.targetGroupCount i) :
    s.nextOfGroup cfg i < cfg.workerCount ∧ s.free (s.nextOfGroup cfg i)=i+1 ∧
      s.outstanding (s.nextOfGroup cfg i) < cfg.perQueueSlots := by
  obtain ⟨hw,hfree⟩ := h.grouped.buckets.level_head hi hlt
  change s.nextOfGroup cfg i < cfg.workerCount at hw
  change s.free (s.nextOfGroup cfg i)=i+1 at hfree
  have hle := h.accounts.free_le _ hw (by omega)
  exact ⟨hw,hfree,by omega⟩

theorem forward_accounts {i : Nat} (hi : i < cfg.perQueueSlots)
    (hlt : s.groupIdx i < s.targetGroupCount i) : (s.forward cfg i).Accounts cfg := by
  obtain ⟨-,-,hout⟩ := h.outstanding_nextOfGroup hi hlt
  exact h.accounts.forward fun _ => by omega

theorem fcFwMain (hspares : s.SparesGroups cfg .run) : (s.fcFwMain cfg).Fair cfg := by
  rw [Router.fcFwMain]
  split
  case h_1 hpc =>
    split_ifs
    · exact ⟨h.accounts.clearGroups,.clearGroups s⟩
    · exact h.leave (h.grouped.leave nofun nofun nofun)
  case h_2 k hpc =>
    split_ifs with hk
    · obtain ⟨hsince,-⟩ := h.grouped.refresh k hpc
      exact ⟨(h.accounts.readSlots hk (hsince k)).congr rfl rfl rfl rfl,h.grouped.readSlots h.accounts hpc hk⟩
    · exact h.leave (h.grouped.leave nofun nofun nofun)
  case h_3 hpc =>
    split_ifs with hnil
    · exact h.leave (h.grouped.afterDirect h.accounts)
    · obtain ⟨hfree,hout⟩ := hspares hpc hnil
      exact ⟨(h.accounts.sendToWorker fun _ => hout).congr rfl rfl rfl rfl, h.grouped.sendDirect hpc hfree _⟩
  case h_4 hpc =>
    split_ifs with hforward
    · have hlt := (of_decide_eq_true hforward).2
      have hi := sub_one_lt_of_lt (h.grouped.idle hpc)
      exact ⟨(h.forward_accounts hi hlt).congr rfl rfl rfl rfl,h.grouped.forwardIdle hpc hlt⟩
    · exact h.leave (h.grouped.leave nofun nofun nofun)
  case h_5 i hpc =>
    obtain ⟨hi,hmax⟩ := h.grouped.avail i hpc
    split_ifs with hforward hend
    · have hlt := (of_decide_eq_true hforward).2
      exact ⟨h.forward_accounts (lt_of_succ_lt hi) hlt,h.grouped.forwardAvail hpc hlt⟩
    · exact h.leave (h.grouped.leave nofun nofun nofun)
    · refine h.leave (h.grouped.leave nofun nofun fun i' hi' => ?_)
      cases hi'
      rw [not_or] at hend
      have hempty : s.targetGroupCount i ≤ s.groupIdx i := by
        by_contra hlt
        exact hforward (decide_eq_true ⟨hend.1,Nat.lt_of_not_le hlt⟩)
      refine ⟨by omega,fun w hw => ?_⟩
      have hne := h.grouped.buckets.level_ne_of_empty (lt_of_succ_lt hi) hempty hw
      have hle := hmax w hw
      omega

theorem step {e : RouterEvent ρ} {s' : Router ρ} (hspares : s.SparesGroups cfg e)
    (hstep : step cfg s e=some s') : s'.Fair cfg := by
  obtain ⟨haccounts,hgrouped⟩ := h
  cases e with
  | arrive policy request =>
    rw [Router.step] at hstep
    split_ifs at hstep with hpc
    cases policy with
    | lbRoute | fixedRoute =>
      cases hstep
      exact ⟨haccounts.congr rfl rfl rfl rfl,⟨hgrouped.1,hgrouped.2,hgrouped.3,hgrouped.4,hgrouped.5⟩⟩
    | replicatedRoute | replicatedRouteNoSe => cases hstep
  | feedback i =>
    rw [Router.step] at hstep
    split at hstep
    · rename_i src hsrc
      split_ifs at hstep with hzero
      cases hstep
      exact ⟨haccounts.feedback hsrc hzero,⟨hgrouped.1,hgrouped.2,hgrouped.3,hgrouped.4,hgrouped.5⟩⟩
    · cases hstep
  | run =>
    cases hstep
    exact fcFwMain ⟨haccounts,hgrouped⟩ hspares

theorem target {i : Nat} (hforwards : s.forwardsFrom cfg=some i) :
    s.outstanding (s.nextOfGroup cfg i) < cfg.perQueueSlots ∧
      ∀ w < cfg.workerCount, s.free w ≤ s.free (s.nextOfGroup cfg i) := by
  rw [forwardsFrom] at hforwards
  split at hforwards
  · rename_i hpc
    split_ifs at hforwards with hforward
    cases hforwards
    have hpos := h.grouped.idle hpc
    obtain ⟨-,hfree,hout⟩ := h.outstanding_nextOfGroup (sub_one_lt_of_lt hpos) (of_decide_eq_true hforward).2
    refine ⟨hout,fun w hw => ?_⟩
    have hle := h.accounts.free_le w hw
    omega
  · rename_i i' hpc
    split_ifs at hforwards with hforward
    cases hforwards
    obtain ⟨hi,hmax⟩ := h.grouped.avail _ hpc
    obtain ⟨-,hfree,hout⟩ := h.outstanding_nextOfGroup (lt_of_succ_lt hi) (of_decide_eq_true hforward).2
    refine ⟨hout,fun w hw => ?_⟩
    have hle := hmax w hw
    omega
  · cases hforwards
end Fair

/-- Whenever a queued request is about to be forwarded, its worker has fewer requests outstanding
than it has slots, and no worker has more free slots: those of the last snapshot minus the requests
sent since. -/
theorem forward_to_freest (cfg : RouterConfig) (es : List (RouterEvent ρ)) (s : Router ρ)
    (hrun : exec (step cfg) (init cfg) es=some s) (hspares : EachStep (step cfg) (SparesGroups cfg) (init cfg) es)
    (i : Nat) (hforwards : s.forwardsFrom cfg=some i) :
    s.outstanding (s.nextOfGroup cfg i) < cfg.perQueueSlots ∧ ∀ w < cfg.workerCount,
    s.free w ≤ s.free (s.nextOfGroup cfg i) := by
  have hfair : s.Fair cfg :=
    exec_invariant (fun _ _ _ h hcond hstep => h.step hcond hstep) (fair_init cfg) hrun hspares
  exact hfair.target hforwards
section Runs
private def twoWorkers : RouterConfig := ⟨2,[⟨0x0a000001,8000⟩,⟨0x0a000001,8001⟩],by decide,by decide,by decide⟩

/-- Five requests fill all slots; worker 1 finishes one, which is seen at the next snapshot, and a
fixed-route request goes to worker 0, which has no free slot. -/
private def busy : List (RouterEvent Nat) :=
  (List.range 5).map (.arrive .lbRoute)++List.replicate 13 .run ++
    [.feedback 1,.arrive .fixedRoute 5]++List.replicate 6 .run

theorem busy_to_freest : ∃ s : Router Nat, exec (step twoWorkers) (init twoWorkers) busy=some s ∧
      s.forwardsFrom twoWorkers=some 0 ∧ s.pendingRouted=[4] ∧
      s.outstanding (s.nextOfGroup twoWorkers 0)<2 ∧
      ∀ w<2, s.free w ≤ s.free (s.nextOfGroup twoWorkers 0) := by
  have hrun : (exec (step twoWorkers) (init twoWorkers) busy).map
      (fun s => (s.forwardsFrom twoWorkers,s.pendingRouted))=some (some 0,[4]) := by
    decide +kernel
  obtain ⟨s,hs,hstate⟩ := Option.map_eq_some_iff.mp hrun
  simp only [Prod.mk.injEq] at hstate
  have hspares : EachStep (step twoWorkers) (SparesGroups twoWorkers) (init twoWorkers) busy := by decide +kernel
  exact ⟨s,hs,hstate.1,hstate.2,forward_to_freest twoWorkers busy s hs hspares 0 hstate.1⟩

private def oneWorker : RouterConfig := ⟨1,[⟨0x0a000001,8000⟩],by decide,by decide,by decide⟩

private def bothRoutes : List (RouterEvent Nat) :=
  [.arrive .fixedRoute 0,.arrive .lbRoute 1]++List.replicate 5 .run

theorem bothRoutes_overload : ∃ s : Router Nat, exec (step oneWorker) (init oneWorker) bothRoutes=some s ∧
      s.forwardsFrom oneWorker=some 0 ∧ s.nextOfGroup oneWorker 0=0 ∧
      ¬s.outstanding 0<oneWorker.perQueueSlots := by
  have hrun : (exec (step oneWorker) (init oneWorker) bothRoutes).map
      (fun s => (s.forwardsFrom oneWorker,s.nextOfGroup oneWorker 0,s.outstanding 0)) =
      some (some 0,0,1) := by
    decide +kernel
  obtain ⟨s,hs,hstate⟩ := Option.map_eq_some_iff.mp hrun
  simp only [Prod.mk.injEq] at hstate
  refine ⟨s,hs,hstate.1,hstate.2.1,?_⟩
  rw [hstate.2.2]
  decide
end Runs
end Router
end P4Benchmarks.R2p2
