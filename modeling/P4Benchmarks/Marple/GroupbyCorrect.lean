import P4Benchmarks.Marple.Groupby
import P4Benchmarks.Marple.LinearPass
/-!
# Which packets a groupby stage counts

On packets of its operand a stage does what the aggregation function does.  On other packets the
assignments outside every `if` are executed all the same, and the key is written.
-/
namespace P4Benchmarks.Marple
open Lib List FoldConfigInfo ThreeOpStmt ThreeOpCode Compiled PipeConfigInfo
variable (q : String)
theorem isUserIdent_tmpTransformQueryId : isUserIdent (tmpTransformQueryId q)=false := by
  simp [isUserIdent,tmpTransformQueryId]

theorem isUserIdent_fieldTransformQueryId : isUserIdent (fieldTransformQueryId q)=false := by
  simp [isUserIdent,fieldTransformQueryId]

theorem isUserIdent_predVarId (k : Nat) : isUserIdent (predVarId k)=false := by simp [isUserIdent,predVarId]

theorem tmpTransformQueryId_ne_predVarId (k : Nat) : tmpTransformQueryId q≠predVarId k := by
  intro h
  have hlist := congrArg String.toList h
  simp [tmpTransformQueryId,predVarId] at hlist

theorem ne_of_isUserIdent {x y : String} (hx : isUserIdent x) (hy : isUserIdent y=false) : x≠y := by
  rintro rfl
  rw [hx] at hy
  cases hy

/-- Code whose outermost predicate `o` is the validity of `r` and which records its emits as the
validity of `q`. -/
@[local simp] def ThreeOpCode.guarded (q r : String) (o : Option String) (toc : ThreeOpCode) : ThreeOpCode :=
  { toc with stmts := toc.stmts.flatMap (validLine q o (.predId (tmpTransformQueryId r))) }
variable {q r : String} {o : Option String} {state : String}
theorem adjustStmts_append {xs ys xs' ys' : List ThreeOpStmt} (hx : adjustStmts state xs=.ok xs')
    (hy : adjustStmts state ys=.ok ys') : adjustStmts state (xs++ys)=.ok (xs'++ys') := by
  induction xs generalizing xs' with
  | nil =>
    cases hx
    exact hy
  | cons s xs ih =>
    obtain ⟨head,hhead,hx⟩ := bind_eq_ok hx
    obtain ⟨tail,htail,hx⟩ := bind_eq_ok hx
    cases hx
    rw [cons_append,adjustStmts,hhead,ih htail,append_assoc]
    rfl
variable {s : ThreeOpStmt} {ss : List ThreeOpStmt}
theorem adjustStmts_singleton (h : adjustStmt state s=.ok ss) : adjustStmts state [s]=.ok ss := by
  rw [adjustStmts,h]
  exact congrArg Except.ok (append_nil ss)

theorem adjustStmt_validLine (hstate : isUserIdent state) (h : adjustStmt state s=.ok ss) (p : AugPred) :
    adjustStmts state (validLine q o p s)=.ok (ss.flatMap (validLine q o p)) := by
  cases s with
  | ternary | exprAssign =>
    -- the pass replaces assignments by assignments, which are left as they are
    have hsame : ss.flatMap (validLine q o p)=ss := by
      rw [adjustStmt] at h
      split_ifs at h
      · obtain ⟨ab,-,h⟩ := bind_eq_ok h
        cases h
        rfl
      · cases h
        rfl
    rw [hsame]
    exact adjustStmts_singleton h
  | predAssign result pred =>
    rw [adjustStmt] at h
    split_ifs at h with hres
    cases h
    rw [flatMap_singleton,validLine]
    split_ifs <;> exact adjustStmts_singleton (by rw [adjustStmt,if_neg hres])
  | emit predVar =>
    cases h
    have hne : tmpTransformQueryId q≠state :=
      (ne_of_isUserIdent hstate (isUserIdent_tmpTransformQueryId q)).symm
    simp [validLine,adjustStmts,adjustStmt,hne]
    rfl

theorem adjustStmts_flatMap_validLine (hstate : isUserIdent state)
    {ss ss' : List ThreeOpStmt} (h : adjustStmts state ss=.ok ss') (p : AugPred) :
    adjustStmts state (ss.flatMap (validLine q o p))=.ok (ss'.flatMap (validLine q o p)) := by
  induction ss generalizing ss' with
  | nil =>
    cases h
    rfl
  | cons s ss ih =>
    obtain ⟨head,hhead,h⟩ := bind_eq_ok h
    obtain ⟨tail,htail,h⟩ := bind_eq_ok h
    cases h
    rw [flatMap_cons,flatMap_append]
    exact adjustStmts_append (adjustStmt_validLine hstate hhead p) (ih htail)
variable {toc toc' : ThreeOpCode}
theorem adjustLinearInState_guarded (hstate : isUserIdent state) (h : adjustLinearInState toc state=.ok toc') :
    adjustLinearInState (toc.guarded q r o) state=.ok (toc'.guarded q r o) := by
  obtain ⟨body,hbody,h⟩ := bind_eq_ok h
  cases h
  rw [adjustLinearInState,guarded,adjustStmts_flatMap_validLine hstate hbody]
  simp [validLine,finalUpdate]
  rfl
variable {p : AugPred}
/-- The lines that `validLine` makes: the line itself, the outermost predicate with its new
value, or the validity of the result in front of an emit. -/
theorem mem_validLine {s t : ThreeOpStmt} (h : t ∈ validLine q o p s) :
    t=s ∨ (∃ result pred, s=.predAssign result pred ∧ t=.predAssign result p) ∨ ∃ predVar, s=.emit predVar ∧
    t=.predAssign (tmpTransformQueryId q) (.predOr (.predId predVar) (.predId (tmpTransformQueryId q))) := by
  cases s with
  | ternary | exprAssign => exact .inl (mem_singleton.mp h)
  | predAssign result pred =>
    rw [validLine] at h
    split_ifs at h
    · exact .inr (.inl ⟨result,pred,rfl,mem_singleton.mp h⟩)
    · exact .inl (mem_singleton.mp h)
  | emit predVar =>
    rcases mem_pair.mp h with rfl | rfl
    · exact .inr (.inr ⟨predVar,rfl,rfl⟩)
    · exact .inl rfl
variable {hist : HistMap}
theorem Adjustable.guarded {toc : ThreeOpCode} (hstate : isUserIdent state) (h : Adjustable state hist toc.stmts)
    (hemit : ∀ predVar, .emit predVar ∈ toc.stmts → isUserIdent predVar=false) :
    Adjustable state hist (toc.guarded q r o).stmts := by
  have hne (x : String) : state≠tmpTransformQueryId x :=
    ne_of_isUserIdent hstate (isUserIdent_tmpTransformQueryId x)
  -- a new line passes the check and mentions no integer variable
  have hline : ∀ t ∈ (toc.guarded q r o).stmts, t ∈ toc.stmts ∨
      checkStmt state hist t=.ok true ∧ t.KeepsElse ∧ t.intVars=[] := by
    intro t ht
    obtain ⟨s,hs,ht⟩ := mem_flatMap.mp ht
    obtain rfl | ⟨result,pred,rfl,rfl⟩ | ⟨predVar,rfl,rfl⟩ := mem_validLine ht
    · exact .inl hs
    · refine .inr ⟨checkStmt_of_other hist ?_ ?_,trivial,rfl⟩
      · simpa [getUsedVars,AugPred.getUsedVars] using hne r
      · cases touches_of_checkStmt (h.linear _ hs) with
        | other _ hused hdef => exact hdef
    · have hpred := ne_of_isUserIdent hstate (hemit predVar hs)
      refine .inr ⟨checkStmt_of_other hist ?_ ?_,trivial,rfl⟩
      · simp [getUsedVars,AugPred.getUsedVars,hne q,hpred]
      · simpa [getDefinedVar] using (hne q).symm
  constructor
  · intro t ht
    exact (hline t ht).elim (h.linear t) fun hnew => hnew.1
  · intro t ht
    exact (hline t ht).elim (h.keepsElse t) fun hnew => hnew.2.1
  · intro t ht
    exact (hline t ht).elim (h.fresh_a t) fun hnew => by simp [hnew.2.2]
  · intro t ht
    exact (hline t ht).elim (h.fresh_b t) fun hnew => by simp [hnew.2.2]

theorem adjustAll_guarded {inf : List String} (hnodup : inf.Nodup) (hinf : ∀ x ∈ inf, isUserIdent x)
    (h : ∀ x ∈ inf, Adjustable x hist toc.stmts) (hg : ∀ x ∈ inf, Adjustable x hist (toc.guarded q r o).stmts)
    (hadj : adjustAll hist inf toc=.ok toc') : adjustAll hist inf (toc.guarded q r o)=.ok (toc'.guarded q r o) := by
  induction inf generalizing toc with
  | nil =>
    cases hadj
    rfl
  | cons state rest ih =>
    obtain ⟨hnot,hrest⟩ := nodup_cons.mp hnodup
    obtain ⟨hstate,hinf'⟩ := forall_mem_cons.mp hinf
    obtain ⟨hself,hothers⟩ := forall_mem_cons.mp h
    obtain ⟨hselfg,hothersg⟩ := forall_mem_cons.mp hg
    rw [adjustAll,detectLinearInState_iff.mpr hself.linear] at hadj
    obtain ⟨mid,hmid,hadj⟩ := bind_eq_ok
      (show (adjustLinearInState toc state >>= adjustAll hist rest)=.ok toc' from hadj)
    have hmidg := adjustLinearInState_guarded (q := q) (r := r) (o := o) hstate hmid
    rw [adjustAll,detectLinearInState_iff.mpr hselfg.linear]
    rw [hmidg]
    have hne {x : String} (hx : x ∈ rest) : x≠state := fun heq => hnot (heq ▸ hx)
    apply ih hrest hinf' _ _ hadj
    · intro x hx
      exact Adjustable.adjust hstate (hinf' x hx) (hne hx) hself (hothers x hx) hmid
    · intro x hx
      exact Adjustable.adjust hstate (hinf' x hx) (hne hx) hselfg (hothersg x hx) hmidg

structure AgreesExcept (x : String) (env env' : Env) : Prop where
  int : env'.int=env.int
  bool : ∀ y, y≠x → env'.bool y=env.bool y
variable {env env' : Env}
section
variable {x : String} (h : AgreesExcept x env env')
include h
theorem AgreesExcept.eval (hp : x ∉ p.boolVars) : p.eval env'=p.eval env := by
  induction p with
  | predId y => exact h.bool y fun heq => hp (by simp [AugPred.boolVars,heq])
  | predAnd p q ihp ihq | predOr p q ihp ihq =>
    have hp' : x ∉ p.boolVars := fun hmem => hp (by simp [AugPred.boolVars,hmem])
    have hq' : x ∉ q.boolVars := fun hmem => hp (by simp [AugPred.boolVars,hmem])
    simp [AugPred.eval,ihp hp',ihq hq']
  | predNot p ih => simp only [AugPred.eval,ih hp]
  | predTrue | predFalse => rfl
  | predEq | predNe | predGt | predLt => simp only [AugPred.eval,h.int]

theorem AgreesExcept.setBool_left (b : Bool) : AgreesExcept x env (env'.setBool x b) := by
  refine ⟨h.int,?_⟩
  intro y hy
  rw [Env.setBool_bool,Function.update_of_ne hy,h.bool y hy]

theorem AgreesExcept.exec (hs : x ∉ s.boolVars) : AgreesExcept x (s.exec env) (s.exec env') := by
  have hpred {predVar : String} (hp : x≠predVar) : env'.bool predVar=env.bool predVar := h.bool predVar hp.symm
  cases s with
  | ternary result predVar e e' =>
    have hp : x≠predVar := by simpa [boolVars] using hs
    exact ⟨by simp [ThreeOpStmt.exec,hpred hp,h.int],h.bool⟩
  | predAssign result p =>
    refine ⟨h.int,?_⟩
    intro y hy
    rw [ThreeOpStmt.exec,ThreeOpStmt.exec,h.eval hs]
    by_cases hres : y=result
    · simp [hres]
    · simp [hres,h.bool y hy]
  | exprAssign result e => exact ⟨by simp [ThreeOpStmt.exec,h.int],h.bool⟩
  | emit predVar => exact h
end

theorem validLine_exec (hvars : tmpTransformQueryId q ∉ s.boolVars) (houter : s.boolDef=none ∨ s.boolDef≠o)
    (h : AgreesExcept (tmpTransformQueryId q) env env') (states : List String) (n : Nat) :
    let out := execStmts states (validLine q o p s) n env'
    AgreesExcept (tmpTransformQueryId q) (s.exec env) out.1 ∧ out.2=s.emission states n env ∧
      emitStmts (validLine q o p s)=emitStmts [s] := by
  cases s with
  | ternary | exprAssign => exact ⟨h.exec hvars,rfl,rfl⟩
  | predAssign result pred =>
    have hne : some result≠o := by simpa [boolDef] using houter
    rw [validLine,if_neg hne]
    exact ⟨h.exec hvars,rfl,rfl⟩
  | emit predVar =>
    have hp : predVar≠tmpTransformQueryId q := by simpa [boolVars,eq_comm] using hvars
    refine ⟨h.setBool_left _,?_,rfl⟩
    simp [validLine,execStmts,ThreeOpStmt.exec,emission,ThreeOpStmt.next,isEmit,hp,h.bool predVar hp,h.int]

/-- Code that neither reads the validity of its own result nor sets the outermost predicate does
the same when it is guarded. -/
theorem execStmts_flatMap_validLine (hvars : ∀ s ∈ ss, tmpTransformQueryId q ∉ s.boolVars)
    (houter : ∀ s ∈ ss, s.boolDef=none ∨ s.boolDef≠o)
    (h : AgreesExcept (tmpTransformQueryId q) env env') (states : List String) (n : Nat) :
    let out := execStmts states ss n env
    let out' := execStmts states (ss.flatMap (validLine q o p)) n env'
    AgreesExcept (tmpTransformQueryId q) out.1 out'.1 ∧ out'.2=out.2 := by
  induction ss generalizing n env env' with
  | nil => exact ⟨h,rfl⟩
  | cons s ss ih =>
    obtain ⟨hvars,hvars'⟩ := forall_mem_cons.mp hvars
    obtain ⟨houter,houter'⟩ := forall_mem_cons.mp houter
    obtain ⟨hline,hemission,hemits⟩ := validLine_exec (p := p) hvars houter h states n
    have hnext : n+emitStmts [s]=s.next n := by
      simp only [emitStmts,ThreeOpStmt.next]
      split <;> omega
    obtain ⟨hagree,hlog⟩ := ih hvars' houter' hline (s.next n)
    rw [flatMap_cons,execStmts_append,hemits,hnext]
    refine ⟨hagree,?_⟩
    dsimp only [execStmts]
    rw [hemission,hlog]

/-- Guarded if-converted code does what the body does if the operand is valid.  If it is not, it
still executes the assignments outside every `if`. -/
theorem Compiled.guarded_exec (g : Compiled) (env : Env) : (execStmts g.fn.states
      (g.input.toc.guarded q r (some (predVarId (g.incr+1)))).stmts 0 env).1.int =
      if env.bool (tmpTransformQueryId r) then (g.fn.run env.int).1
      else (runPrimitives g.fn.states g.fn.body.topLevel 0 env.int).1 := by
  have hgen := visitCodeBlock_outer_generated g.fn g.incr
  have hvars : ∀ s ∈ (visitCodeBlock g.fn.body (.outer g.incr)).1.stmts, tmpTransformQueryId q ∉ s.boolVars := by
    intro s hs hmem
    obtain ⟨k,hk⟩ := (hgen s hs).boolVars _ hmem
    exact tmpTransformQueryId_ne_predVarId q k hk
  have houter : ∀ s ∈ (visitCodeBlock g.fn.body (.outer g.incr)).1.stmts,
      s.boolDef=none ∨ s.boolDef≠some (predVarId (g.incr+1)) := by
    intro s hs
    refine .inr fun heq => ?_
    obtain ⟨k,hk,hpred⟩ := (hgen s hs).boolDef _ heq
    have hkeq := predVarId_inj.mp hpred
    omega
  have hstmts : (g.input.toc.guarded q r (some (predVarId (g.incr+1)))).stmts =
      .predAssign (predVarId (g.incr+1)) (.predId (tmpTransformQueryId r)) ::
        (visitCodeBlock g.fn.body (.outer g.incr)).1.stmts.flatMap
          (validLine q (some (predVarId (g.incr+1))) (.predId (tmpTransformQueryId r))) := by
    have hfirst := visitAggFun_stmts g.fn g.fnVars g.incr
    simp [input,hfirst,validLine]
  let start := env.setBool (predVarId (g.incr+1)) (env.bool (tmpTransformQueryId r))
  have hstart : AgreesExcept (tmpTransformQueryId q) start start := ⟨rfl,fun _ _ => rfl⟩
  have hrest := execStmts_flatMap_validLine (p := .predId (tmpTransformQueryId r)) hvars houter hstart g.fn.states 0
  have hbody := (visitCodeBlock_outer g.fn g.incr (.predId (tmpTransformQueryId r)) env).1
  rw [hstmts]
  exact hrest.1.int.trans hbody

theorem adjustAll_decls {inf : List String} (h : adjustAll hist inf toc=.ok toc') : toc.decls <+: toc'.decls := by
  induction inf generalizing toc with
  | nil =>
    cases h
    exact prefix_refl _
  | cons state rest ih =>
    obtain ⟨lis,-,h⟩ := bind_eq_ok h
    cases lis with
    | false => exact ih h
    | true =>
      obtain ⟨mid,hmid,h⟩ := bind_eq_ok (show (adjustLinearInState toc state >>= adjustAll hist rest)=.ok toc' from h)
      obtain ⟨body,-,hmid⟩ := bind_eq_ok hmid
      cases hmid
      exact (prefix_append _ _).trans (ih h)

/-- The code of a function after the linear-in-state pass: its first declaration is still the
outermost predicate, and guarding it has the same effect on the states as before the pass. -/
theorem getAggFunCode_guarded {gs : List Compiled} {codes : List ThreeOpCode}
    (h : getAggFunCode gs=.ok codes) {g : Compiled} {toc : ThreeOpCode}
    (hg : (g,toc) ∈ gs.zip codes) (hlex : g.fn.Lexical) (hnodup : g.fn.states.Nodup) :
    toc.peekIdFirstDecl=some (predVarId (g.incr+1)) ∧ ∀ env, ∀ x, isUserIdent x →
        (execStmts g.fn.states (toc.guarded q r o).stmts 0 env).1.int x =
          (execStmts g.fn.states (g.input.toc.guarded q r o).stmts 0 env).1.int x := by
  obtain ⟨res,hres,h⟩ := bind_eq_ok h
  cases res with
  | none =>
    cases h
    have htoc : toc=g.input.toc := by
      have hzip := zip_map' (l := gs) (f := id) (g := fun g : Compiled => g.input.toc)
      rw [map_id] at hzip
      rw [hzip,mem_map] at hg
      obtain ⟨g',-,heq⟩ := hg
      cases heq
      rfl
    subst htoc
    exact ⟨rfl,fun _ _ _ => rfl⟩
  | some codes' =>
    cases h
    obtain ⟨hist,hadj,hadjustable⟩ := adjusted hres hg hlex
    have huser := isUserIdent_states hlex
    have hinf : ∀ x ∈ g.input.infStates, isUserIdent x := by
      intro x hx
      exact huser x (infStates_subset x hx)
    have hemit : ∀ predVar, .emit predVar ∈ g.input.toc.stmts → isUserIdent predVar=false := by
      intro predVar hmem
      obtain ⟨k,rfl⟩ := (visitAggFun_generated g.fn g.fnVars g.incr _ hmem).boolVars predVar (by simp [boolVars])
      exact isUserIdent_predVarId k
    have hguarded : ∀ x ∈ g.input.infStates, Adjustable x hist (g.input.toc.guarded q r o).stmts := by
      intro x hx
      exact (hadjustable x hx).guarded (hinf x hx) hemit
    constructor
    · obtain ⟨ds,hds⟩ := adjustAll_decls hadj
      rw [peekIdFirstDecl,← hds]
      rfl
    · intro env
      exact (adjustAll_spec huser (hnodup.filter _) hinf hguarded
        (adjustAll_guarded (hnodup.filter _) hinf hadjustable hguarded hadj) env).1

theorem containsKey_addTmpOfField (info : PipeConfigInfo) (tmp : String) (readOffField : Bool) :
    (info.addTmpOfField tmp readOffField).symTab.containsKey (tmpTransformQueryId tmp) := by
  unfold addTmpOfField
  by_cases hkey : info.symTab.containsKey (tmpTransformQueryId tmp)
  · simp [hkey]
  · rw [if_neg hkey]
    simp [SymTab.containsKey]

/-- The stage declares the validity of its operand and reads it from the packet.  It does not if
an earlier stage with the same function did, since the two share a symbol table. -/
def FoldConfigInfo.readsOperand (info : FoldConfigInfo) (queryId operandQueryId : String) : Bool :=
  !(info.toPipeConfigInfo.addTmpOfField queryId false).symTab.containsKey (tmpTransformQueryId operandQueryId)

structure DerivedGroupby where
  program : List Compiled
  codes : List ThreeOpCode
  compiled : getAggFunCode program=.ok codes
  fn : Compiled
  code : ThreeOpCode
  mem : (fn,code) ∈ program.zip codes
  lexical : fn.fn.Lexical
  nodup : fn.fn.states.Nodup
  keyFields : List String
  symTab : SymTab
  (queryId operandQueryId : String)
  reads : (new keyFields code symTab fn.fn.states).readsOperand queryId operandQueryId
  hash : List (BitVec 32) → Fin tableSize
namespace DerivedGroupby
variable (s : DerivedGroupby)
def config : FoldConfigInfo :=
  (new s.keyFields s.code s.symTab s.fn.fn.states).addValidStmt s.queryId s.operandQueryId false

def stage : Groupby := s.config.stage s.hash
variable (regs : Registers) (pkt : Env)
def step : Registers := (s.stage.action s.config.update regs pkt).registers
def run (regs : Registers) (pkts : List Env) : Registers := s.stage.run s.config.update regs pkts

/-- The registers that it should have: the aggregation function has seen the packets of the
operand and no others. -/
def reference (pkts : List Env) : Registers :=
  s.stage.run s.fn.fn.update regs (pkts.filter (isValid s.operandQueryId))

/-- The packet is one of the operand, or its key is in its bucket already and the assignments
outside every `if` leave the states in the bucket as they are. -/
def Harmless : Prop :=
  isValid s.operandQueryId pkt ∨ s.stage.keyMatches regs pkt (s.stage.hashTableIndex pkt) ∧ ∀ x ∈ s.fn.fn.states,
        (runPrimitives s.fn.fn.states s.fn.fn.body.topLevel 0 (s.stage.start regs pkt).int).1 x =
          regs.regV x (s.stage.hashTableIndex pkt)

theorem stmts_eq : ∃ post, (post=[] ∨ post=[.ternary (fieldTransformQueryId s.queryId)
      (tmpTransformQueryId s.queryId) (.val 1 1) (.val 0 1)]) ∧
    s.config.stmts=.predAssign (tmpTransformQueryId s.operandQueryId)
        (.predEq (.id (fieldTransformQueryId s.operandQueryId)) (.val 1 1)) ::
      .predAssign (tmpTransformQueryId s.queryId) .predFalse ::
      ((s.code.guarded s.queryId s.operandQueryId s.code.peekIdFirstDecl).stmts++post) := by
  have hreads := s.reads
  simp only [readsOperand,Bool.not_eq_true'] at hreads
  by_cases hq : s.symTab.containsKey (tmpTransformQueryId s.queryId)
  · refine ⟨[],.inl rfl,?_⟩
    simp [config,addValidStmt,new,PipeConfigInfo.stmts,addTmpOfField,hq,empty] at hreads ⊢
    simp [hreads]
  · refine ⟨_,.inr rfl,?_⟩
    simp [config,addValidStmt,new,PipeConfigInfo.stmts,addTmpOfField,hq,empty] at hreads ⊢
    simp [hreads]

theorem tmp_ne : tmpTransformQueryId s.operandQueryId≠tmpTransformQueryId s.queryId := by
  intro heq
  have hreads := s.reads
  rw [readsOperand,heq,containsKey_addTmpOfField] at hreads
  cases hreads

/-- The states after the update code: those of the aggregation function if the operand is valid,
those of its statements outside every `if` otherwise. -/
theorem update_int (env : Env) {x : String} (hx : x ∈ s.fn.fn.states) :
    (s.config.update env).1.int x = if isValid s.operandQueryId env then (s.fn.fn.run env.int).1 x
      else (runPrimitives s.fn.fn.states s.fn.fn.body.topLevel 0 env.int).1 x := by
  obtain ⟨post,hpost,hstmts⟩ := s.stmts_eq
  have huser := isUserIdent_states s.lexical x hx
  obtain ⟨hpeek,hpass⟩ := getAggFunCode_guarded (q := s.queryId) (r := s.operandQueryId)
    (o := s.code.peekIdFirstDecl) s.compiled s.mem s.lexical s.nodup
  let start := (env.setBool (tmpTransformQueryId s.operandQueryId)
    (isValid s.operandQueryId env)).setBool (tmpTransformQueryId s.queryId) false
  have hstart : start.bool (tmpTransformQueryId s.operandQueryId) = isValid s.operandQueryId env := by
    simp [start,s.tmp_ne]
  have hupdate : s.config.update env=execStmts s.fn.fn.states
      ((s.code.guarded s.queryId s.operandQueryId s.code.peekIdFirstDecl).stmts++post) 0
      start := by
    rw [update,hstmts]
    rfl
  -- what follows the guarded code writes no state
  have hend (n : Nat) (env' : Env) : (execStmts s.fn.fn.states post n env').1.int x=env'.int x := by
    rcases hpost with rfl | rfl
    · rfl
    · have hne := ne_of_isUserIdent huser (isUserIdent_fieldTransformQueryId s.queryId)
      simp [execStmts,ThreeOpStmt.exec,hne]
  rw [hupdate,execStmts_append]
  rw [hend,hpass start x huser,hpeek,s.fn.guarded_exec start,hstart]
  split <;> rfl

theorem isValid_start : isValid s.operandQueryId (s.stage.start regs pkt)=isValid s.operandQueryId pkt := by
  have hnot : fieldTransformQueryId s.operandQueryId ∉ s.stage.valueFields := by
    intro hmem
    have huser := isUserIdent_states s.lexical _ hmem
    rw [isUserIdent_fieldTransformQueryId] at huser
    cases huser
  simp [isValid,Groupby.start,hnot]

theorem step_of_valid {regs : Registers} {pkt : Env} (hvalid : isValid s.operandQueryId pkt) :
    s.step regs pkt=(s.stage.action s.fn.fn.update regs pkt).registers := by
  apply Groupby.action_registers_congr
  intro x hx
  rw [s.update_int _ hx,isValid_start,hvalid,if_pos rfl]
  rfl

theorem step_eq_self_iff {regs : Registers} {pkt : Env} (hinvalid : isValid s.operandQueryId pkt=false) :
    s.step regs pkt=regs ↔ s.Harmless regs pkt := by
  rw [step,Groupby.action_registers_eq_self_iff,Harmless,hinvalid]
  simp only [Bool.false_eq_true,false_or]
  refine and_congr_right fun _ => forall₂_congr fun x hx => ?_
  rw [s.update_int _ hx,isValid_start,hinvalid]
  simp

/-- The registers agree with those of the reference at all times exactly if every packet that is
not one of the operand is harmless when it arrives. -/
theorem run_eq_reference_iff (regs : Registers) (pkts : List Env) :
    (∀ n, s.run regs (pkts.take n)=s.reference regs (pkts.take n)) ↔
      EachStep (fun regs pkt => some (s.step regs pkt)) s.Harmless regs pkts := by
  have hrun := forall_take_foldl_filter_iff (f := s.step)
    (g := fun regs pkt => (s.stage.action s.fn.fn.update regs pkt).registers)
    (fun _ _ => s.step_of_valid) regs pkts
  refine hrun.trans (EachStep.congr fun regs pkt => ?_)
  cases hvalid : isValid s.operandQueryId pkt with
  | true => simp [Harmless,hvalid]
  | false =>
    rw [s.step_eq_self_iff hvalid]
    simp
end DerivedGroupby

def flsumCompiled : Compiled where
  fn :=
    { name := "flsum"
      states := ["sum"]
      fields := ["size"]
      body := .plain [.assign "sum" (.comb .add (.col "sum") (.col "size"))] }
  fnVars := []
  incr := (visitAggFun flDetect ["delta"] 0).2
  hist := fun x => if x = "sum" then some maxPktHistory else none

def flowletSum : DerivedGroupby where
  program := [flDetectCompiled,flsumCompiled]
  codes := _
  compiled := rfl
  fn := flsumCompiled
  code := _
  mem := mem_cons_of_mem _ (mem_cons_self ..)
  lexical := by decide +kernel
  nodup := by decide
  keyFields := []
  symTab := [("sum",.state),("size",.field)]
  queryId := "result"
  operandQueryId := "R1"
  reads := by decide +kernel
  hash := fun _ => ⟨0,by decide⟩

/-- A packet that ends no flowlet adds its `size` field to the sum all the same. -/
theorem flowletSum_counts_other_packet : flowletSum.run ⟨fun _ => .filled 0,fun _ => .filled 0⟩
        [⟨fun x => if x = "size" then 5 else 0,fun _ => false⟩] ≠
      flowletSum.reference ⟨fun _ => .filled 0,fun _ => .filled 0⟩
        [⟨fun x => if x = "size" then 5 else 0,fun _ => false⟩] := by
  intro h
  have hsum := congrArg (fun regs => regs.regV "sum" ⟨0,by decide⟩) h
  revert hsum
  decide +kernel
end P4Benchmarks.Marple
