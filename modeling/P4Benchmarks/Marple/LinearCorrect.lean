import P4Benchmarks.Marple.Linear
/-!
# What the linear-in-state pass preserves

Deferring the updates of a state keeps its final value, but until the final statement the state
variable holds the value it had before the packet, and an emit in between copies that value.
-/
namespace P4Benchmarks.Marple
open List Function ThreeOpStmt Emission
attribute [local simp] AugExpr.getUsedVars AugExpr.eval AugExpr.const
theorem AugExpr.eval_congr {σ τ : Store} (e : AugExpr) (h : ∀ x ∈ e.getUsedVars, σ x=τ x) : e.eval σ=e.eval τ := by
  induction e with
  | id x => exact h x (by simp)
  | val v w => rfl
  | comb op l r ihl ihr =>
    have hl := ihl fun x hx => h x (by simp [hx])
    have hr := ihr fun x hx => h x (by simp [hx])
    simp [hl,hr]

@[local simp] def AugPred.intVars : AugPred → List String
  | .predTrue => []
  | .predFalse => []
  | .predId _ => []
  | .predEq l r => l.getUsedVars++r.getUsedVars
  | .predNe l r => l.getUsedVars++r.getUsedVars
  | .predGt l r => l.getUsedVars++r.getUsedVars
  | .predLt l r => l.getUsedVars++r.getUsedVars
  | .predAnd p q => p.intVars++q.intVars
  | .predOr p q => p.intVars++q.intVars
  | .predNot p => p.intVars

theorem AugPred.intVars_subset (p : AugPred) : p.intVars ⊆ p.getUsedVars := by
  induction p with
  | predAnd p q ihp ihq | predOr p q ihp ihq =>
    intro x hx
    simp only [AugPred.intVars,AugPred.getUsedVars,mem_append] at hx ⊢
    exact hx.imp (fun h => ihp h) (fun h => ihq h)
  | predNot p ih => exact ih
  | predTrue | predFalse | predId _ => simp
  | predEq l r | predNe l r | predGt l r | predLt l r => exact fun _ h => h
variable {env env' : Env}
theorem AugPred.eval_congr (p : AugPred) (hbool : env.bool=env'.bool)
    (h : ∀ x ∈ p.intVars, env.int x=env'.int x) : p.eval env=p.eval env' := by
  induction p with
  | predAnd p q ihp ihq | predOr p q ihp ihq =>
    have hp := ihp fun x hx => h x (by simp [hx])
    have hq := ihq fun x hx => h x (by simp [hx])
    simp [AugPred.eval,hp,hq]
  | predNot p ih => simp only [AugPred.eval,ih h]
  | predTrue | predFalse => rfl
  | predId x => simp only [AugPred.eval,hbool]
  | predEq l r | predNe l r | predGt l r | predLt l r =>
    have hl := l.eval_congr fun x hx => h x (by simp [hx])
    have hr := r.eval_congr fun x hx => h x (by simp [hx])
    simp [AugPred.eval,hl,hr]

structure IsAffine (var : String) (e a b : AugExpr) : Prop where
  avoids_a : var ∉ a.getUsedVars
  avoids_b : var ∉ b.getUsedVars
  subset_a : a.getUsedVars ⊆ e.getUsedVars
  subset_b : b.getUsedVars ⊆ e.getUsedVars
  eval : ∀ σ : Store, e.eval σ=a.eval σ*σ var+b.eval σ
variable {var : String}
theorem isSingleIdentExpr_iff {e : AugExpr} : e.isSingleIdentExpr var ↔ e=.id var := by
  cases e <;> simp [AugExpr.isSingleIdentExpr]

theorem getLinearCoefficient_spec {e a : AugExpr} (h : e.getLinearCoefficient var=.ok a) :
    var ∉ a.getUsedVars ∧ a.getUsedVars ⊆ e.getUsedVars ∧ ∀ σ : Store, e.eval σ=a.eval σ*σ var := by
  have hlin : e.isLinearExpr var := by
    unfold AugExpr.getLinearCoefficient at h
    split_ifs at h with hlin <;> simpa using hlin
  simp only [AugExpr.getLinearCoefficient,hlin,Bool.not_true,Bool.false_eq_true,if_false] at h
  cases e with
  | id x =>
    split_ifs at h with hid
    obtain rfl : x=var := by simpa [AugExpr.isSingleIdentExpr] using hid
    cases h
    simp
  | val v w => cases h
  | comb op l r =>
    have hok : a = if l.isSingleIdentExpr var then r else l := (Except.ok.inj h).symm
    obtain ⟨rfl,hsides⟩ : op=.mul ∧ (l.isSingleIdentExpr var&&!r.usesIdent var ||
        r.isSingleIdentExpr var&&!l.usesIdent var) := by
      cases op with
      | mul => exact ⟨rfl,hlin⟩
      | add | sub | div | rshift => cases hlin
    by_cases hl : l=.id var
    · subst hl
      have hr : var ∉ r.getUsedVars := by simpa [AugExpr.isSingleIdentExpr,AugExpr.usesIdent] using hsides
      obtain rfl : a=r := by simpa [AugExpr.isSingleIdentExpr] using hok
      refine ⟨hr,by simp,fun σ => ?_⟩
      exact BitVec.mul_comm (σ var) (a.eval σ)
    · have hl' : l.isSingleIdentExpr var=false := by
        rw [← Bool.not_eq_true,isSingleIdentExpr_iff]
        exact hl
      obtain rfl : a=l := by simpa [hl'] using hok
      obtain ⟨hr,hla⟩ : r=.id var ∧ var ∉ a.getUsedVars := by
        simpa [hl',isSingleIdentExpr_iff,AugExpr.usesIdent] using hsides
      subst hr
      exact ⟨hla,by simp,fun σ => rfl⟩

private theorem isAffine_add {l r c : AugExpr} (hc : l.getLinearCoefficient var=.ok c) (hr : r.usesIdent var=false) :
    IsAffine var (.comb .add l r) c r ∧ IsAffine var (.comb .add r l) c r := by
  obtain ⟨havoid,hsub,heval⟩ := getLinearCoefficient_spec hc
  have hb : var ∉ r.getUsedVars := by simpa [AugExpr.usesIdent] using hr
  constructor
  all_goals
    refine ⟨havoid,hb,fun x hx => ?_,fun x hx => ?_,fun σ => ?_⟩
    · simp [hsub hx]
    · simp [hx]
    · simp [Binop.eval,heval σ,BitVec.add_comm]

private theorem map_some_eq_ok {x : Except JavaError AugExpr} {a b e : AugExpr}
    (h : x.map (fun c => some (c,e))=.ok (some (a,b))) : x=.ok a ∧ e=b := by
  cases x with
  | error err => cases h
  | ok c => simpa [Except.map] using h
variable {e a b : AugExpr}
theorem getAffineCoefficients_spec (h : e.getAffineCoefficients var=.ok (some (a,b))) : IsAffine var e a b := by
  unfold AugExpr.getAffineCoefficients at h
  split_ifs at h with hid hval
  · obtain rfl := isSingleIdentExpr_iff.mp hid
    obtain ⟨rfl,rfl⟩ : AugExpr.const 1=a ∧ AugExpr.const 0=b := by simpa using h
    constructor <;> simp
  · obtain ⟨rfl,rfl⟩ : AugExpr.const 0=a ∧ e=b := by simpa using h
    cases e with
    | val v w => constructor <;> simp
    | id x | comb op l r => simp [AugExpr.isValueExpr] at hval
  · split at h
    · split_ifs at h with hl hr
      · obtain ⟨hc,rfl⟩ := map_some_eq_ok h
        simp only [Bool.and_eq_true,Bool.not_eq_true'] at hl
        exact (isAffine_add hc hl.2).1
      · obtain ⟨hc,rfl⟩ := map_some_eq_ok h
        simp only [Bool.and_eq_true,Bool.not_eq_true'] at hr
        exact (isAffine_add hc hr.2).2
      · cases h
    · cases h
variable {hist : HistMap} {state : String}
theorem checkExprs_cons {e : AugExpr} {es : List AugExpr} (h : checkExprs state hist (e::es)=.ok true) :
    ∃ a b, e.getAffineCoefficients state=.ok (some (a,b)) ∧ checkExprs state hist es=.ok true := by
  obtain ⟨c,hc,hrest⟩ := bind_eq_ok h
  cases c with
  | none => cases hrest
  | some ab =>
    dsimp only at hrest
    split_ifs at hrest
    · cases hrest
    · cases hrest
    · exact ⟨ab.1,ab.2,hc,hrest⟩

inductive Touches (state : String) : ThreeOpStmt → Prop
  | other (s : ThreeOpStmt) (hused : state ∉ s.getUsedVars)
      (hdef : s.getDefinedVar≠some state) : Touches state s
  | ternary (predVar : String) (e e' a b : AugExpr)
      (hab : e.getAffineCoefficients state=.ok (some (a,b))) :
      Touches state (.ternary state predVar e e')
  | exprAssign (e a b : AugExpr) (hab : e.getAffineCoefficients state=.ok (some (a,b))) :
      Touches state (.exprAssign state e)
variable {s : ThreeOpStmt}
theorem touches_of_checkStmt (h : checkStmt state hist s=.ok true) : Touches state s := by
  unfold checkStmt at h
  split_ifs at h with hread hdef hexprs
  · cases h
  · cases h
  · obtain ⟨ok,-,hrest⟩ := bind_eq_ok h
    split_ifs at hrest
    · cases hrest
    · cases s with
      | ternary result predVar e e' =>
        obtain rfl : result=state := by simpa [getDefinedVar] using hdef
        obtain ⟨a,b,hab,-⟩ := checkExprs_cons hrest
        exact .ternary predVar e e' a b hab
      | exprAssign result e =>
        obtain rfl : result=state := by simpa [getDefinedVar] using hdef
        obtain ⟨a,b,hab,-⟩ := checkExprs_cons hrest
        exact .exprAssign e a b hab
      | predAssign result p | emit p => simp [getUsedExprs] at hexprs
  · exact .other s (fun hmem => hread ⟨hmem,hdef⟩) hdef

theorem checkStmt_of_other (hist : HistMap) (hused : state ∉ s.getUsedVars) (hdef : s.getDefinedVar≠some state) :
    checkStmt state hist s=.ok true := by
  simp [checkStmt,hused,hdef]

theorem detectLinearInState_iff {ss : List ThreeOpStmt} : detectLinearInState state hist ss=.ok true ↔
      ∀ s ∈ ss, checkStmt state hist s=.ok true := by
  induction ss with
  | nil => simp [detectLinearInState]
  | cons s ss ih =>
    rw [forall_mem_cons,← ih]
    constructor
    · intro h
      obtain ⟨ok,hok,hrest⟩ := bind_eq_ok h
      cases ok with
      | false => cases hrest
      | true => exact ⟨hok,hrest⟩
    · rintro ⟨hs,hss⟩
      rw [detectLinearInState,hs]
      exact hss

theorem coeffName_inj {suffix x y : String} (h : coeffName suffix x=coeffName suffix y) : x=y := by
  have hlist := congrArg String.toList h
  simp only [coeffName,String.toList_append] at hlist
  have hmid := append_cancel_left (append_cancel_right hlist)
  exact String.toList_inj.mp hmid

theorem aCoeff_ne_bCoeff (x y : String) : aCoeff x≠bCoeff y := by
  intro h
  have hlist := congrArg String.toList h
  simp only [aCoeff,bCoeff,coeffName,String.toList_append] at hlist
  have hend := (append_inj' hlist (by simp)).2
  simp at hend

theorem ne_coeffName {x : String} (h : isUserIdent x) (suffix y : String) : x≠coeffName suffix y := by
  rintro rfl
  simp [isUserIdent,coeffName] at h

def ThreeOpStmt.intVars : ThreeOpStmt → List String
  | .ternary result _ e e' => result::(e.getUsedVars++e'.getUsedVars)
  | .predAssign _ p => p.intVars
  | .exprAssign result e => result::e.getUsedVars
  | .emit _ => []

def ThreeOpStmt.KeepsElse : ThreeOpStmt → Prop
  | .ternary result _ _ e' => e'=.id result
  | _ => True

/-- How the environment of the original code (`env`) and of the adjusted code (`env'`) are
related in the middle of the code: the state is frozen at `s₀` and its current value is the
affine function of `s₀` that the coefficients describe. -/
structure Deferred (state : String) (s₀ : BitVec 32) (env env' : Env) : Prop where
  bool : env'.bool=env.bool
  int : ∀ x, x≠state → x≠aCoeff state → x≠bCoeff state → env'.int x=env.int x
  frozen : env'.int state=s₀
  value : env.int state=env'.int (aCoeff state)*s₀+env'.int (bCoeff state)
variable {s₀ : BitVec 32}
section
variable (h : Deferred state s₀ env env')
include h
theorem Deferred.int_of_mem {xs : List String} (hs : state ∉ xs) (ha : aCoeff state ∉ xs) (hb : bCoeff state ∉ xs) :
    ∀ x ∈ xs, env'.int x=env.int x :=
  fun x hx => h.int x (ne_of_mem_of_not_mem hx hs) (ne_of_mem_of_not_mem hx ha) (ne_of_mem_of_not_mem hx hb)

theorem Deferred.setInt {x : String} (hs : x≠state) (ha : x≠aCoeff state) (hb : x≠bCoeff state) (v : BitVec 32) :
    Deferred state s₀ (env.setInt x v) (env'.setInt x v) where
  bool := h.bool
  int y hys hya hyb := by
    by_cases hyx : y=x
    · subst hyx
      simp
    · simp [hyx,h.int y hys hya hyb]
  frozen := by simp [Ne.symm hs,h.frozen]
  value := by simp [Ne.symm hs,Ne.symm ha,Ne.symm hb,h.value]

theorem Deferred.setBool (x : String) (v : Bool) : Deferred state s₀ (env.setBool x v) (env'.setBool x v) where
  __ := h
  bool := by simp [h.bool]

theorem Deferred.update (hsa : aCoeff state≠state) (hsb : bCoeff state≠state) (A B : BitVec 32) :
    Deferred state s₀ (env.setInt state (A*env.int state+B))
      ((env'.setInt (aCoeff state) (env'.int (aCoeff state)*A)).setInt (bCoeff state)
        (B+A*env'.int (bCoeff state))) where
  bool := h.bool
  int y hys hya hyb := by simp [hys,hya,hyb,h.int y hys hya hyb]
  frozen := by simp [Ne.symm hsa,Ne.symm hsb,h.frozen]
  value := by
    have hab := aCoeff_ne_bCoeff state state
    simp only [Env.setInt_int,update_self,update_of_ne hab,h.value]
    rw [BitVec.mul_add,← BitVec.mul_assoc,BitVec.mul_comm A,BitVec.add_assoc,BitVec.add_comm B]
end

def Emission.reset (frozen : List String) (σ : Store) (em : Emission) : Emission :=
  { em with values := em.values.map fun xv => (xv.1,if xv.1 ∈ frozen then σ xv.1 else xv.2) }
variable {states : List String} {σ : Store}
theorem Deferred.emission_eq (h : Deferred state (σ state) env env') (huser : ∀ x ∈ states, isUserIdent x) (n : Nat) :
    of states n env'.int=(of states n env.int).reset [state] σ := by
  simp only [of,reset,map_map,mk.injEq,true_and]
  refine map_congr_left fun x hx => ?_
  by_cases hxs : x=state
  · subst hxs
    simp [h.frozen]
  · simp [hxs,h.int x hxs (ne_coeffName (huser x hx) _ _) (ne_coeffName (huser x hx) _ _)]

structure Defers (state : String) (states : List String) (σ : Store) (ss ss' : List ThreeOpStmt) : Prop where
  emits : emitStmts ss'=emitStmts ss
  exec : ∀ n env env', Deferred state (σ state) env env' →
    Deferred state (σ state) (execStmts states ss n env).1 (execStmts states ss' n env').1
  emission : ∀ n env env', Deferred state (σ state) env env' → (execStmts states ss' n env').2 =
      (execStmts states ss n env).2.map (reset [state] σ)

theorem Defers.append {ss ss' ts ts' : List ThreeOpStmt} (hs : Defers state states σ ss ss')
    (ht : Defers state states σ ts ts') : Defers state states σ (ss++ts) (ss'++ts') where
  emits := by rw [emitStmts_append,emitStmts_append,hs.emits,ht.emits]
  exec n env env' h := by
    rw [execStmts_append,execStmts_append,hs.emits]
    exact ht.exec _ _ _ (hs.exec n env env' h)
  emission n env env' h := by
    rw [execStmts_append,execStmts_append,hs.emits]
    simp only [map_append]
    rw [hs.emission n env env' h,ht.emission _ _ _ (hs.exec n env env' h)]
variable {ss' : List ThreeOpStmt}
theorem Defers.of_exec (hs : s.isEmit=false) (hss : ∀ s' ∈ ss', s'.isEmit=false)
    (hexec : ∀ env env', Deferred state (σ state) env env' →
      Deferred state (σ state) (s.exec env) (ss'.foldl ThreeOpStmt.exec env')) :
    Defers state states σ [s] ss' := by
  have hsilent (ts : List ThreeOpStmt) (hts : ∀ t ∈ ts, t.isEmit=false) (n : Nat) (env : Env) :
      execStmts states ts n env=(ts.foldl ThreeOpStmt.exec env,[]) ∧ emitStmts ts=0 := by
    induction ts generalizing env with
    | nil => exact ⟨rfl,rfl⟩
    | cons t ts ih =>
      obtain ⟨ht,hrest⟩ := forall_mem_cons.mp hts
      have hem : t.emission states n env=[] := by cases t <;> simp_all [ThreeOpStmt.emission,isEmit]
      simp [execStmts,emitStmts,ThreeOpStmt.next,ht,hem,ih hrest,(ih hrest env).2]
  have hone := hsilent [s] (by simpa using hs)
  constructor
  · rw [(hsilent ss' hss 0 ⟨σ,fun _ => false⟩).2,(hone 0 ⟨σ,fun _ => false⟩).2]
  · intro n env env' h
    rw [(hsilent ss' hss n env').1,(hone n env).1]
    exact hexec env env' h
  · intro n env env' _
    rw [(hsilent ss' hss n env').1,(hone n env).1]
    rfl

theorem Defers.other (huser : ∀ x ∈ states, isUserIdent x) (hused : state ∉ s.getUsedVars)
    (hdef : s.getDefinedVar≠some state) (ha : aCoeff state ∉ s.intVars) (hb : bCoeff state ∉ s.intVars) :
    Defers state states σ [s] [s] := by
  cases s with
  | ternary result predVar e e' =>
    simp only [getUsedVars,mem_cons,mem_append,not_or] at hused
    simp only [intVars,mem_cons,mem_append,not_or] at ha hb
    refine .of_exec rfl (by simp [isEmit]) fun env env' h => ?_
    have hres : result≠state := by simpa [getDefinedVar] using hdef
    simp only [foldl_cons,foldl_nil,ThreeOpStmt.exec]
    rw [h.bool,e.eval_congr (h.int_of_mem hused.2.1 ha.2.1 hb.2.1),e'.eval_congr (h.int_of_mem hused.2.2 ha.2.2 hb.2.2)]
    exact h.setInt hres (Ne.symm ha.1) (Ne.symm hb.1) _
  | predAssign result p =>
    refine .of_exec rfl (by simp [isEmit]) fun env env' h => ?_
    have heval : p.eval env'=p.eval env :=
      p.eval_congr h.bool (h.int_of_mem (fun hs => hused (p.intVars_subset hs)) ha hb)
    simp only [foldl_cons,foldl_nil,ThreeOpStmt.exec,heval]
    exact h.setBool result _
  | exprAssign result e =>
    simp only [intVars,mem_cons,not_or] at ha hb
    refine .of_exec rfl (by simp [isEmit]) fun env env' h => ?_
    have hres : result≠state := by simpa [getDefinedVar] using hdef
    simp only [foldl_cons,foldl_nil,ThreeOpStmt.exec,e.eval_congr (h.int_of_mem hused ha.2 hb.2)]
    exact h.setInt hres (Ne.symm ha.1) (Ne.symm hb.1) _
  | emit predVar =>
    refine ⟨rfl,fun n env env' h => h,fun n env env' h => ?_⟩
    simp only [execStmts,ThreeOpStmt.emission,h.bool,append_nil]
    cases env.bool predVar with
    | false => rfl
    | true => simp [h.emission_eq huser]

private theorem Deferred.eval_update (h : Deferred state s₀ env env') (haff : IsAffine state e a b)
    (ha : aCoeff state ∉ e.getUsedVars) (hb : bCoeff state ∉ e.getUsedVars) (v : BitVec 32) :
    (updateA (aCoeff state) a).eval env'.int=env'.int (aCoeff state)*a.eval env.int ∧
      (updateB (bCoeff state) a b).eval (env'.setInt (aCoeff state) v).int =
        b.eval env.int+a.eval env.int*env'.int (bCoeff state) := by
  have haa := fun hmem => ha (haff.subset_a hmem)
  have hba := fun hmem => ha (haff.subset_b hmem)
  have hA := a.eval_congr (h.int_of_mem haff.avoids_a haa fun hmem => hb (haff.subset_a hmem))
  have hB := b.eval_congr (h.int_of_mem haff.avoids_b hba fun hmem => hb (haff.subset_b hmem))
  -- assigning the first coefficient does not change the value of the new expressions
  have hskip {c : AugExpr} (hc : aCoeff state ∉ c.getUsedVars) :
      c.eval (env'.setInt (aCoeff state) v).int=c.eval env'.int := by
    refine c.eval_congr fun x hx => ?_
    have hne : x≠aCoeff state := fun hxa => hc (hxa ▸ hx)
    simp [hne]
  have hab := (aCoeff_ne_bCoeff state state).symm
  constructor
  · simp [updateA,Binop.eval,hA]
  · simp only [updateB,AugExpr.eval,Binop.eval,hskip haa,hskip hba,hA,hB]
    simp [hab]

theorem adjustStmt_of_ne (hdef : s.getDefinedVar≠some state) (hadj : adjustStmt state s=.ok ss') : ss'=[s] := by
  cases s with
  | ternary result predVar e e' | exprAssign result e | predAssign result p =>
    have hres : result≠state := by simpa [getDefinedVar] using hdef
    simpa [adjustStmt,hres,eq_comm] using hadj
  | emit predVar => exact (Except.ok.inj hadj).symm

theorem Defers.stmt (hstate : isUserIdent state) (huser : ∀ x ∈ states, isUserIdent x) (ht : Touches state s)
    (hkeep : s.KeepsElse) (ha : aCoeff state ∉ s.intVars) (hb : bCoeff state ∉ s.intVars)
    (hadj : adjustStmt state s=.ok ss') : Defers state states σ [s] ss' := by
  have hsa : aCoeff state≠state := (ne_coeffName hstate _ _).symm
  have hsb : bCoeff state≠state := (ne_coeffName hstate _ _).symm
  cases ht with
  | other _ hused hdef =>
    obtain rfl := adjustStmt_of_ne hdef hadj
    exact .other huser hused hdef ha hb
  | ternary predVar e e' a b hab =>
    obtain rfl : e'=.id state := hkeep
    simp only [intVars,mem_cons,mem_append,not_or] at ha hb
    simp only [adjustStmt,affineCoefficients,hab,if_true] at hadj
    cases hadj
    refine .of_exec rfl (by simp [isEmit]) fun env env' h => ?_
    have haff := getAffineCoefficients_spec hab
    simp only [foldl_cons,foldl_nil,ThreeOpStmt.exec,Env.setInt_bool,h.bool]
    cases env.bool predVar with
    | true =>
      obtain ⟨hA,hB⟩ := h.eval_update haff ha.2.1 hb.2.1 ((updateA (aCoeff state) a).eval env'.int)
      simp only [if_true]
      rw [hB,hA,haff.eval env.int]
      exact h.update hsa hsb _ _
    | false =>
      simp only [Bool.false_eq_true,if_false,AugExpr.eval]
      have hsame (x : String) (u : Env) : u.setInt x (u.int x)=u := by simp [Env.setInt]
      rw [hsame,hsame,hsame]
      exact h
  | exprAssign e a b hab =>
    simp only [intVars,mem_cons,not_or] at ha hb
    simp only [adjustStmt,affineCoefficients,hab,if_true] at hadj
    cases hadj
    refine .of_exec rfl (by simp [isEmit]) fun env env' h => ?_
    have haff := getAffineCoefficients_spec hab
    obtain ⟨hA,hB⟩ := h.eval_update haff ha.2 hb.2 ((updateA (aCoeff state) a).eval env'.int)
    simp only [foldl_cons,foldl_nil,ThreeOpStmt.exec]
    rw [hB,hA,haff.eval env.int]
    exact h.update hsa hsb _ _

structure Adjustable (state : String) (hist : HistMap) (ss : List ThreeOpStmt) : Prop where
  linear : ∀ s ∈ ss, checkStmt state hist s=.ok true
  keepsElse : ∀ s ∈ ss, s.KeepsElse
  fresh_a : ∀ s ∈ ss, aCoeff state ∉ s.intVars
  fresh_b : ∀ s ∈ ss, bCoeff state ∉ s.intVars

theorem Adjustable.tail {ss : List ThreeOpStmt} (h : Adjustable state hist (s::ss)) : Adjustable state hist ss :=
  ⟨fun t ht => h.linear t (by simp [ht]),fun t ht => h.keepsElse t (by simp [ht]),
    fun t ht => h.fresh_a t (by simp [ht]),fun t ht => h.fresh_b t (by simp [ht])⟩

theorem Defers.stmts (hstate : isUserIdent state) (huser : ∀ x ∈ states, isUserIdent x) {ss ss' : List ThreeOpStmt}
    (h : Adjustable state hist ss) (hadj : adjustStmts state ss=.ok ss') : Defers state states σ ss ss' := by
  induction ss generalizing ss' with
  | nil =>
    cases hadj
    exact ⟨rfl,fun _ _ _ h => h,fun _ _ _ _ => rfl⟩
  | cons s ss ih =>
    obtain ⟨hd,hhd,hrest⟩ := bind_eq_ok hadj
    obtain ⟨tl,htl,hok⟩ := bind_eq_ok hrest
    cases hok
    have hs := Defers.stmt (σ := σ) hstate huser (touches_of_checkStmt (h.linear s (by simp)))
      (h.keepsElse s (by simp)) (h.fresh_a s (by simp)) (h.fresh_b s (by simp)) hhd
    exact hs.append (ih h.tail htl)
variable {toc toc' : ThreeOpCode}
/-- Adjusting one state: all variables but its coefficients end as before, and every emit copies
the value that the state had at the start. -/
theorem adjustLinearInState_spec (hstate : isUserIdent state) (huser : ∀ x ∈ states, isUserIdent x)
    (h : Adjustable state hist toc.stmts)
    (hadj : adjustLinearInState toc state=.ok toc') (env : Env) :
    let out := execStmts states toc.stmts 0 env
    let out' := execStmts states toc'.stmts 0 env
    (∀ x, x≠aCoeff state → x≠bCoeff state → out'.1.int x=out.1.int x) ∧ out'.2=out.2.map (reset [state] env.int) := by
  have hsa : aCoeff state≠state := (ne_coeffName hstate _ _).symm
  have hsb : bCoeff state≠state := (ne_coeffName hstate _ _).symm
  have hab := aCoeff_ne_bCoeff state state
  obtain ⟨body,hbody,hok⟩ := bind_eq_ok hadj
  cases hok
  -- after the two default definitions the state is the function 1 * state + 0 of itself
  let start := (env.setInt (aCoeff state) 1).setInt (bCoeff state) 0
  have hstart : Deferred state (env.int state) env start := by
    refine ⟨rfl,?_,?_,?_⟩
    · intro x _ hxa hxb
      simp [start,hxa,hxb]
    · simp [start,hsa.symm,hsb.symm]
    · simp [start,hab]
  have hdefers := Defers.stmts (σ := env.int) hstate huser h hbody
  have hmid := hdefers.exec 0 env start hstart
  have hlog := hdefers.emission 0 env start hstart
  have hrun : execStmts states ([.exprAssign (aCoeff state) (.const 1),.exprAssign (bCoeff state) (.const 0)]++body ++
        [finalUpdate state]) 0 env =
      ((finalUpdate state).exec (execStmts states body 0 start).1,(execStmts states body 0 start).2) := by
    rw [append_assoc,execStmts_append,execStmts_append]
    simp [execStmts,emitStmts,isEmit,ThreeOpStmt.exec,ThreeOpStmt.emission,finalUpdate,start]
  intro out out'
  have hout' : out'=_ := hrun
  rw [hout']
  refine ⟨fun x hxa hxb => ?_,hlog⟩
  by_cases hx : x=state
  · subst hx
    simp only [finalUpdate,ThreeOpStmt.exec,Env.setInt_int,update_self,AugExpr.eval,Binop.eval,hmid.frozen]
    exact hmid.value.symm
  · simp only [finalUpdate,ThreeOpStmt.exec,Env.setInt_int,update_of_ne hx]
    exact hmid.int x hx hxa hxb

@[local simp] def ownVars (state : String) : List String := [state,aCoeff state,bCoeff state]

structure Added (state : String) (old : List ThreeOpStmt) (s : ThreeOpStmt) : Prop where
  defined : ∃ x ∈ ownVars state, s.getDefinedVar=some x
  used : ∀ x ∈ s.getUsedVars, x ∈ ownVars state ∨ ∃ t ∈ old, x ∈ t.getUsedVars
  int : ∀ x ∈ s.intVars, x ∈ ownVars state ∨ ∃ t ∈ old, x ∈ t.intVars
  keepsElse : s.KeepsElse

theorem added_ternary {state predVar x : String} {e e' new : AugExpr} (hx : x ∈ ownVars state)
    (hnew : ∀ y ∈ new.getUsedVars, y ∈ ownVars state ∨ y ∈ e.getUsedVars) :
    Added state [.ternary state predVar e e'] (.ternary x predVar new (.id x)) where
  defined := ⟨x,hx,rfl⟩
  used y hy := by
    simp only [getUsedVars,AugExpr.getUsedVars,mem_cons,mem_append,not_mem_nil,or_false] at hy
    rcases hy with rfl | hy | rfl
    · exact .inr ⟨_,mem_singleton_self _,by simp [getUsedVars]⟩
    · refine (hnew y hy).imp id fun h => ⟨_,mem_singleton_self _,?_⟩
      simp [getUsedVars,h]
    · exact .inl hx
  int y hy := by
    simp only [intVars,AugExpr.getUsedVars,mem_cons,mem_append,not_mem_nil,or_false] at hy
    rcases hy with rfl | hy | rfl
    · exact .inl hx
    · refine (hnew y hy).imp id fun h => ⟨_,mem_singleton_self _,?_⟩
      simp [intVars,h]
    · exact .inl hx
  keepsElse := rfl

theorem added_exprAssign {state x : String} {old : List ThreeOpStmt} {new : AugExpr} (hx : x ∈ ownVars state)
    (hnew : ∀ y ∈ new.getUsedVars, y ∈ ownVars state ∨ ∃ e, .exprAssign state e ∈ old ∧ y ∈ e.getUsedVars) :
    Added state old (.exprAssign x new) where
  defined := ⟨x,hx,rfl⟩
  used y hy := (hnew y hy).imp id fun ⟨e,he,hye⟩ => ⟨_,he,hye⟩
  int y hy := by
    rcases mem_cons.mp hy with rfl | hy
    · exact .inl hx
    · exact (hnew y hy).imp id fun ⟨e,he,hye⟩ => ⟨_,he,mem_cons_of_mem _ hye⟩
  keepsElse := trivial

theorem mem_updates (haff : IsAffine state e a b) :
    (∀ y ∈ (updateA (aCoeff state) a).getUsedVars, y ∈ ownVars state ∨ y ∈ e.getUsedVars) ∧
      ∀ y ∈ (updateB (bCoeff state) a b).getUsedVars, y ∈ ownVars state ∨ y ∈ e.getUsedVars := by
  simp only [updateA,updateB,AugExpr.getUsedVars,ownVars,mem_append,mem_cons,not_mem_nil,or_false]
  constructor
  · rintro y (rfl | hy)
    · exact .inl (.inr (.inl rfl))
    · exact .inr (haff.subset_a hy)
  · rintro y (hy | hy | rfl)
    · exact .inr (haff.subset_b hy)
    · exact .inr (haff.subset_a hy)
    · exact .inl (.inr (.inr rfl))

theorem mem_adjustStmt {s t : ThreeOpStmt} (ht : Touches state s) (hadj : adjustStmt state s=.ok ss') (hmem : t ∈ ss') :
    t=s ∨ s.getDefinedVar=some state ∧ Added state [s] t := by
  have hA : aCoeff state ∈ ownVars state := by simp
  have hB : bCoeff state ∈ ownVars state := by simp
  cases ht with
  | other _ hused hdef =>
    obtain rfl := adjustStmt_of_ne hdef hadj
    exact .inl (mem_singleton.mp hmem)
  | ternary predVar e e' a b hab =>
    right
    refine ⟨rfl,?_⟩
    simp only [adjustStmt,affineCoefficients,hab,if_true] at hadj
    cases hadj
    obtain ⟨hnewA,hnewB⟩ := mem_updates (getAffineCoefficients_spec hab)
    rcases mem_cons.mp hmem with rfl | hmem
    · exact added_ternary hA hnewA
    · obtain rfl := mem_singleton.mp hmem
      exact added_ternary hB hnewB
  | exprAssign e a b hab =>
    right
    refine ⟨rfl,?_⟩
    simp only [adjustStmt,affineCoefficients,hab,if_true] at hadj
    cases hadj
    obtain ⟨hnewA,hnewB⟩ := mem_updates (getAffineCoefficients_spec hab)
    rcases mem_cons.mp hmem with rfl | hmem
    · exact added_exprAssign hA fun y hy => (hnewA y hy).imp id fun h => ⟨e,by simp,h⟩
    · obtain rfl := mem_singleton.mp hmem
      exact added_exprAssign hB fun y hy => (hnewB y hy).imp id fun h => ⟨e,by simp,h⟩

theorem mem_adjustStmts {ss ss' : List ThreeOpStmt} (h : Adjustable state hist ss) (hadj : adjustStmts state ss=.ok ss')
    {t : ThreeOpStmt} (hmem : t ∈ ss') : t ∈ ss ∨ ∃ s ∈ ss, s.getDefinedVar=some state ∧ Added state [s] t := by
  induction ss generalizing ss' with
  | nil =>
    cases hadj
    cases hmem
  | cons s ss ih =>
    obtain ⟨hd,hhd,hrest⟩ := bind_eq_ok hadj
    obtain ⟨tl,htl,hok⟩ := bind_eq_ok hrest
    cases hok
    rcases mem_append.mp hmem with hmem | hmem
    · rcases mem_adjustStmt (touches_of_checkStmt (h.linear s (by simp))) hhd hmem with
        rfl | hadd
      · exact .inl (by simp)
      · exact .inr ⟨s,by simp,hadd⟩
    · rcases ih h.tail htl hmem with hold | ⟨s',hs',hadd⟩
      · exact .inl (by simp [hold])
      · exact .inr ⟨s',by simp [hs'],hadd⟩

theorem mem_adjustLinearInState (h : Adjustable state hist toc.stmts) (hadj : adjustLinearInState toc state=.ok toc')
    {t : ThreeOpStmt} (hmem : t ∈ toc'.stmts) :
    t ∈ toc.stmts ∨ ∃ old, (∀ s ∈ old, s ∈ toc.stmts ∧ s.getDefinedVar=some state) ∧ Added state old t := by
  obtain ⟨body,hbody,hok⟩ := bind_eq_ok hadj
  cases hok
  simp only [cons_append,nil_append,mem_cons,mem_append,not_mem_nil,or_false] at hmem
  rcases hmem with rfl | rfl | hmem | rfl
  · refine .inr ⟨[],by simp,added_exprAssign (by simp) ?_⟩
    simp
  · refine .inr ⟨[],by simp,added_exprAssign (by simp) ?_⟩
    simp
  · rcases mem_adjustStmts h hbody hmem with hold | ⟨s,hs,hdef,hadd⟩
    · exact .inl hold
    · exact .inr ⟨[s],by simp [hs,hdef],hadd⟩
  · refine .inr ⟨[],by simp,added_exprAssign (by simp) fun y hy => .inl ?_⟩
    simpa [or_comm,or_left_comm] using hy

theorem Adjustable.adjust {state other : String} (hstate : isUserIdent state) (hother : isUserIdent other)
    (hne : other≠state) (h : Adjustable state hist toc.stmts) (ho : Adjustable other hist toc.stmts)
    (hadj : adjustLinearInState toc state=.ok toc') : Adjustable other hist toc'.stmts := by
  have hown : other ∉ ownVars state := by simp [hne,aCoeff,bCoeff,ne_coeffName hother]
  have hownA : aCoeff other ∉ ownVars state := by
    simp only [ownVars,mem_cons,not_mem_nil,or_false,not_or]
    exact ⟨(ne_coeffName hstate _ _).symm,fun heq => hne (coeffName_inj heq), aCoeff_ne_bCoeff other state⟩
  have hownB : bCoeff other ∉ ownVars state := by
    simp only [ownVars,mem_cons,not_mem_nil,or_false,not_or]
    exact ⟨(ne_coeffName hstate _ _).symm,(aCoeff_ne_bCoeff state other).symm,fun heq => hne (coeffName_inj heq)⟩
  -- a statement that defines `state` does not read `other`
  have hread {s : ThreeOpStmt} (hs : s ∈ toc.stmts) (hdef : s.getDefinedVar=some state) : other ∉ s.getUsedVars := by
    cases touches_of_checkStmt (ho.linear s hs) with
    | other _ hused _ => exact hused
    | ternary | exprAssign => exact absurd (Option.some.inj hdef) hne
  have hfresh {c : String} (hc : c ∉ ownVars state) (hold : ∀ s ∈ toc.stmts, c ∉ s.intVars) :
      ∀ t ∈ toc'.stmts, c ∉ t.intVars := by
    intro t ht hmem
    rcases mem_adjustLinearInState h hadj ht with htoc | ⟨old,htoc,hadd⟩
    · exact hold t htoc hmem
    · rcases hadd.int _ hmem with hmem | ⟨s,hs,hmem⟩
      · exact hc hmem
      · exact hold s (htoc s hs).1 hmem
  refine ⟨?_,?_,hfresh hownA ho.fresh_a,hfresh hownB ho.fresh_b⟩
  · intro t ht
    rcases mem_adjustLinearInState h hadj ht with hold | ⟨old,hold,hadd⟩
    · exact ho.linear t hold
    · apply checkStmt_of_other
      · intro hmem
        rcases hadd.used other hmem with hmem | ⟨s,hs,hmem⟩
        · exact hown hmem
        · exact hread (hold s hs).1 (hold s hs).2 hmem
      · obtain ⟨x,hx,hdef⟩ := hadd.defined
        rw [hdef]
        exact fun heq => hown (Option.some.inj heq ▸ hx)
  · intro t ht
    rcases mem_adjustLinearInState h hadj ht with hold | ⟨old,-,hadd⟩
    · exact ho.keepsElse t hold
    · exact hadd.keepsElse

theorem Emission.reset_reset (x : String) (xs : List String) (σ : Store) (em : Emission) :
    (em.reset [x] σ).reset xs σ=em.reset (x::xs) σ := by
  simp only [reset,map_map,mk.injEq,true_and]
  refine map_congr_left fun yv _ => ?_
  by_cases hx : yv.1=x
  · simp [hx]
  · by_cases hxs : yv.1 ∈ xs <;> simp [hx,hxs]

/-- Adjusting all states of a list: user variables end as before, and every emit copies the
values that the states of the list had at the start. -/
theorem adjustAll_spec (huser : ∀ x ∈ states, isUserIdent x) {inf : List String} (hnodup : inf.Nodup)
    (hinf : ∀ x ∈ inf, isUserIdent x)
    (h : ∀ x ∈ inf, Adjustable x hist toc.stmts) (hadj : adjustAll hist inf toc=.ok toc')
    (env : Env) :
    let out := execStmts states toc.stmts 0 env
    let out' := execStmts states toc'.stmts 0 env
    (∀ x, isUserIdent x → out'.1.int x=out.1.int x) ∧ out'.2=out.2.map (reset inf env.int) := by
  induction inf generalizing toc with
  | nil =>
    cases hadj
    refine ⟨fun _ _ => rfl,?_⟩
    have hid : reset [] env.int=id := by
      funext em
      simp [reset]
    rw [hid,map_id]
  | cons state rest ih =>
    obtain ⟨hnot,hrest⟩ := nodup_cons.mp hnodup
    obtain ⟨hstate,hinf'⟩ := forall_mem_cons.mp hinf
    have hself := h state (by simp)
    have hdetect := detectLinearInState_iff.mpr hself.linear
    rw [adjustAll,hdetect] at hadj
    obtain ⟨mid,hmid,hadj'⟩ := bind_eq_ok
      (show (adjustLinearInState toc state >>= adjustAll hist rest)=.ok toc' from hadj)
    obtain ⟨hint,hlog⟩ := adjustLinearInState_spec hstate huser hself hmid env
    have hmid' : ∀ x ∈ rest, Adjustable x hist mid.stmts := by
      intro x hx
      exact Adjustable.adjust hstate (hinf' x hx) (fun heq => hnot (heq ▸ hx)) hself (h x (by simp [hx])) hmid
    obtain ⟨hint',hlog'⟩ := ih hrest hinf' hmid' hadj'
    refine ⟨fun x hx => ?_,?_⟩
    · exact (hint' x hx).trans (hint x (ne_coeffName hx _ _) (ne_coeffName hx _ _))
    · rw [hlog',hlog,map_map]
      exact map_congr_left fun em _ => em.reset_reset state rest env.int
end P4Benchmarks.Marple
