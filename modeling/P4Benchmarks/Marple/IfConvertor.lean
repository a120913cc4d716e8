import Mathlib.Tactic.SplitIfs
import P4Benchmarks.Marple.ThreeOp
/-!
# If-conversion

`IfConvertor` turns the nested body of an aggregation function into straight-line code in which
every assignment and every emit is guarded by a predicate variable.
-/
namespace P4Benchmarks.Marple
open Nat ThreeOpStmt ThreeOpCode AugPred List
attribute [local simp] ThreeOpStmt.exec ThreeOpStmt.emission

structure IfConvertor where
  incr : Nat
  outerPred : AugPred
  outerPredId : String

def predVarId (uid : Nat) : String := "_pred_" ++ toString uid

def setupPred (pred : AugPred) (v : IfConvertor) : ThreeOpCode × IfConvertor :=
  let v := { v with incr := v.incr+1 }
  let predVarId := predVarId v.incr
  (⟨[⟨1,.bool,predVarId⟩],[.predAssign predVarId pred]⟩,v)

def makePrimitiveAssignmentStmt (v : IfConvertor) (ident : String) (e : Expr) : ThreeOpStmt :=
  if v.outerPred.isIdenticallyTrue then .exprAssign ident (.ofExpr e)
  else if v.outerPred.isIdenticallyFalse then .exprAssign ident (.id ident)
  else .ternary ident v.outerPredId (.ofExpr e) (.id ident)

def visitPrimitive (v : IfConvertor) : Primitive → ThreeOpCode
  | .assign ident e => ⟨[],[makePrimitiveAssignmentStmt v ident e]⟩
  | .emit => ⟨[],[.emit v.outerPredId]⟩
  | .skip => .empty

@[local simp] def visitPrimitives (v : IfConvertor) : List Primitive → ThreeOpCode
  | [] => .empty
  | p::ps => (visitPrimitive v p).orderedMerge (visitPrimitives v ps)

def restorePredContext (old v : IfConvertor) : IfConvertor :=
  { v with outerPred := old.outerPred, outerPredId := old.outerPredId }

def handleIfOrElse (visit : IfConvertor → ThreeOpCode × IfConvertor)
    (currPred outerPred : AugPred) (ifPred : Bool) (v : IfConvertor) : ThreeOpCode × IfConvertor :=
  let pred := outerPred.and (if ifPred then currPred else currPred.not)
  let (toc,v) := setupPred pred v
  let v := { v with outerPred := pred, outerPredId := toc.peekIdFirstDecl.getD "" }
  let (body,v) := visit v
  (toc.orderedMerge body,v)

def visitIfConstruct (p : Predicate) (visitIf : IfConvertor → ThreeOpCode × IfConvertor)
    (visitElse : Option (IfConvertor → ThreeOpCode × IfConvertor)) (v : IfConvertor) :
    ThreeOpCode × IfConvertor :=
  let old := v
  let (code,v) := setupPred (.ofPredicate p) v
  let currPredId := code.peekIdFirstDecl.getD ""
  let (codeIf,v) := handleIfOrElse visitIf (.predId currPredId) (.predId v.outerPredId) true v
  let v := restorePredContext old v
  let code := code.orderedMerge codeIf
  match visitElse with
  | none => (code,v)
  | some visitElse =>
    let (codeElse,v) := handleIfOrElse visitElse (.predId currPredId) (.predId v.outerPredId) false v
    (code.orderedMerge codeElse,restorePredContext old v)

def visitCodeBlock : CodeBlock → IfConvertor → ThreeOpCode × IfConvertor
  | .plain ps, v => (visitPrimitives v ps,v)
  | .ifThen pre p thn post, v =>
    let (code,v') := visitIfConstruct p (fun w => visitCodeBlock thn w) none v
    (((visitPrimitives v pre).orderedMerge code).orderedMerge (visitPrimitives v' post),v')
  | .ifElse pre p thn els post, v =>
    let (code,v') := visitIfConstruct p (fun w => visitCodeBlock thn w)
      (some fun w => visitCodeBlock els w) v
    (((visitPrimitives v pre).orderedMerge code).orderedMerge (visitPrimitives v' post),v')
variable (f : AggFun) (fnVars : List String) (incr : Nat)
/-- The code of an aggregation function with function variables `fnVars`; `incr` identifiers have
been used for earlier functions. -/
def visitAggFun : ThreeOpCode × Nat :=
  let (toc,v) := setupPred .predTrue ⟨incr,.predTrue,""⟩
  let v := { v with outerPred := .predTrue, outerPredId := toc.peekIdFirstDecl.getD "" }
  let toc := { toc with decls := toc.decls++fnVars.map (ThreeOpDecl.mk 32 .int) }
  let (code,v) := visitCodeBlock f.body v
  (toc.orderedMerge code,v.incr)

@[simp] theorem predVarId_inj {j k : Nat} : predVarId j=predVarId k ↔ j=k := by
  constructor
  · intro h
    have hdigits : toDigits 10 j=toDigits 10 k := by
      have hlist := congrArg String.toList h
      simpa [predVarId] using hlist
    rw [← ofDigitChars_toDigits (b := 10) (n := j) (by decide) (by decide),hdigits,
      ofDigitChars_toDigits (by decide) (by decide)]
  · exact congrArg predVarId

abbrev Run := Nat → Store → Store × List Emission

@[local simp] def Run.andThen (r : Run) (k : Nat) (r' : Run) : Run := fun n σ =>
  ((r' (n+k) (r n σ).1).1,(r n σ).2++(r' (n+k) (r n σ).1).2)

/-- If `cond` holds the code does what `run` does; otherwise it does nothing.  In both cases it
leaves the predicate variables up to `bound` alone. -/
structure Realises (states : List String) (code : List ThreeOpStmt) (bound : Nat)
    (cond : Env → Bool) (run : Run) (emits : Nat) : Prop where
  emits_eq : emitStmts code=emits
  int : ∀ n env, (execStmts states code n env).1.int = if cond env then (run n env.int).1 else env.int
  emission : ∀ n env, (execStmts states code n env).2 = if cond env then (run n env.int).2 else []
  frame : ∀ n env k, k≤bound → (execStmts states code n env).1.bool (predVarId k)=env.bool (predVarId k)

def holds (o : Nat) (env : Env) : Bool := env.bool (predVarId o)

theorem Realises.append {states : List String} {ss ts : List ThreeOpStmt} {bound o e e' : Nat} {r r' : Run}
    (ho : o≤bound) (hs : Realises states ss bound (holds o) r e) (ht : Realises states ts bound (holds o) r' e') :
    Realises states (ss++ts) bound (holds o) (r.andThen e r') (e+e') := by
  have hcond (n : Nat) (env : Env) : holds o (execStmts states ss n env).1=holds o env := hs.frame n env o ho
  constructor
  · rw [emitStmts_append,hs.emits_eq,ht.emits_eq]
  · intro n env
    rw [execStmts_append,hs.emits_eq]
    rw [ht.int,hcond,hs.int]
    cases holds o env <;> rfl
  · intro n env
    rw [execStmts_append,hs.emits_eq]
    rw [ht.emission,hcond,hs.int,hs.emission]
    cases holds o env <;> rfl
  · intro n env k hk
    rw [execStmts_append]
    rw [ht.frame _ _ k hk,hs.frame _ _ k hk]

theorem Realises.mono {states : List String} {ss : List ThreeOpStmt} {bound bound' e : Nat} {cond : Env → Bool}
    {r : Run} (h : Realises states ss bound cond r e) (hle : bound'≤bound) : Realises states ss bound' cond r e :=
  ⟨h.emits_eq,h.int,h.emission,fun n env k hk => h.frame n env k (Nat.le_trans hk hle)⟩

theorem emitStmts_visitPrimitives (v : IfConvertor) (ps : List Primitive) :
    emitStmts (visitPrimitives v ps).stmts=emitCount ps := by
  induction ps with
  | nil => rfl
  | cons p ps ih =>
    rw [visitPrimitives,orderedMerge,emitStmts_append,ih]
    cases p with
    | assign x e =>
      simp only [visitPrimitive,makePrimitiveAssignmentStmt,emitCount]
      split_ifs <;> simp [emitStmts,isEmit]
    | skip => simp [visitPrimitive,empty,emitStmts,emitCount]
    | emit =>
      simp only [visitPrimitive,emitStmts,isEmit,emitCount,if_true]
      omega
variable (states : List String)
/-- Primitives in any context that is not identically false: assignments happen if the context
is identically true or its variable holds, emits happen if the variable holds. -/
theorem visitPrimitives_exec (v : IfConvertor)
    (hfalse : v.outerPred.isIdenticallyFalse=false) (ps : List Primitive) (n : Nat) (env : Env) :
    execStmts states (visitPrimitives v ps).stmts n env = (⟨if v.outerPred.isIdenticallyTrue || env.bool v.outerPredId
          then (runPrimitives states ps n env.int).1 else env.int,env.bool⟩,
        if env.bool v.outerPredId then (runPrimitives states ps n env.int).2 else []) := by
  induction ps generalizing n env with
  | nil => simp [empty,execStmts,runPrimitives]
  | cons p ps ih =>
    cases p with
    | assign x e =>
      simp only [visitPrimitives,visitPrimitive,orderedMerge,singleton_append,
        makePrimitiveAssignmentStmt,execStmts,ih,runPrimitives]
      cases htrue : v.outerPred.isIdenticallyTrue <;> cases hb : env.bool v.outerPredId <;>
        simp [hfalse,hb,ThreeOpStmt.next,isEmit,AugExpr.eval,AugExpr.eval_ofExpr]
    | skip => exact ih n env
    | emit =>
      simp only [visitPrimitives,visitPrimitive,orderedMerge,singleton_append,execStmts,ih,runPrimitives]
      cases hb : env.bool v.outerPredId <;> simp [hb,ThreeOpStmt.next,isEmit]

structure IfConvertor.Guarded (v : IfConvertor) (o : Nat) : Prop where
  notTrue : v.outerPred.isIdenticallyTrue=false
  notFalse : v.outerPred.isIdenticallyFalse=false
  outerPredId : v.outerPredId=predVarId o
  le : o≤v.incr
variable {o : Nat} {v : IfConvertor}
theorem visitPrimitives_realises (hv : v.Guarded o) (ps : List Primitive) (bound : Nat) :
    Realises states (visitPrimitives v ps).stmts bound (holds o) (runPrimitives states ps) (emitCount ps) := by
  constructor
  · exact emitStmts_visitPrimitives v ps
  · intro n env
    rw [visitPrimitives_exec states v hv.notFalse]
    simp only [hv.notTrue,hv.outerPredId,Bool.false_or]
    rfl
  · intro n env
    rw [visitPrimitives_exec states v hv.notFalse]
    simp only [hv.outerPredId]
    rfl
  · intro n env k _
    rw [visitPrimitives_exec states v hv.notFalse]

def Implements (states : List String) (visit : IfConvertor → ThreeOpCode × IfConvertor)
    (run : Run) (emits : Nat) : Prop :=
  ∀ v o, v.Guarded o → v.incr≤(visit v).2.incr ∧ Realises states (visit v).1.stmts v.incr (holds o) run emits

theorem handleIfOrElse_realises {states : List String}
    {visit : IfConvertor → ThreeOpCode × IfConvertor} {run : Run} {emits : Nat}
    (hvisit : Implements states visit run emits) (v : IfConvertor) (o c : Nat) (ifPred : Bool) :
    let r := handleIfOrElse visit (.predId (predVarId c)) (.predId (predVarId o)) ifPred v
    v.incr ≤ r.2.incr ∧ Realises states r.1.stmts v.incr (fun env => holds o env&&(holds c env==ifPred)) run
        emits := by
  intro r
  let pred : AugPred := (predId (predVarId o)).and
    (if ifPred then .predId (predVarId c) else (predId (predVarId c)).not)
  let w : IfConvertor := ⟨v.incr+1,pred,predVarId (v.incr+1)⟩
  have hpred : pred.isIdenticallyTrue=false ∧ pred.isIdenticallyFalse=false := by cases ifPred <;> exact ⟨rfl,rfl⟩
  have heval (env : Env) : pred.eval env=(holds o env&&(holds c env==ifPred)) := by
    rw [eval_and]
    cases ifPred <;> simp [eval,eval_not,holds]
  obtain ⟨hle,hbody⟩ := hvisit w (v.incr+1) ⟨hpred.1,hpred.2,rfl,(Nat.le_refl _)⟩
  have hcode : r.1.stmts=.predAssign (predVarId (v.incr+1)) pred::(visit w).1.stmts := rfl
  have hcond (env : Env) : holds (v.incr+1) (env.setBool (predVarId (v.incr+1)) (pred.eval env))=pred.eval env := by
    simp [holds]
  refine ⟨Nat.le_trans (le_succ _) hle,?_,?_,?_,?_⟩
  · rw [hcode,emitStmts,hbody.emits_eq]
    rfl
  · intro n env
    rw [hcode,execStmts]
    simp only [ThreeOpStmt.next,isEmit,ThreeOpStmt.exec,Bool.false_eq_true,if_false]
    rw [hbody.int,hcond,heval]
    rfl
  · intro n env
    rw [hcode,execStmts]
    simp only [ThreeOpStmt.next,isEmit,ThreeOpStmt.exec,ThreeOpStmt.emission,Bool.false_eq_true,if_false,nil_append]
    rw [hbody.emission,hcond,heval]
    rfl
  · intro n env k hk
    rw [hcode,execStmts]
    have hne : predVarId k≠predVarId (v.incr+1) := by
      simp only [ne_eq,predVarId_inj]
      omega
    rw [hbody.frame _ _ k (by simp only [w]; omega)]
    simp [hne]

theorem Realises.nil (bound : Nat) (cond : Env → Bool) : Realises states [] bound cond (fun _ σ => (σ,[])) 0 := by
  constructor <;> simp [execStmts,emitStmts]

theorem Realises.branch {states : List String} {ss ts : List ThreeOpStmt} {o c e e' : Nat}
    {r r' : Run} (p : Predicate) (hoc : o < c)
    (hs : Realises states ss c (fun env => holds o env&&(holds c env==true)) r e)
    (ht : Realises states ts c (fun env => holds o env&&(holds c env==false)) r' e')
    {bound : Nat} (hbound : bound < c) :
    Realises states (.predAssign (predVarId c) (.ofPredicate p)::(ss++ts)) bound (holds o)
      (fun n σ => if p.eval σ then r n σ else r' (n+e) σ) (e+e') := by
  -- the state in which the branches start
  let start (env : Env) : Env := env.setBool (predVarId c) (p.eval env.int)
  have hstart (n : Nat) (env : Env) : execStmts states (.predAssign (predVarId c) (.ofPredicate p)::(ss++ts)) n env =
        execStmts states (ss++ts) n (start env) := by
    simp [execStmts,ThreeOpStmt.next,isEmit,eval_ofPredicate,start]
  have hc (env : Env) : holds c (start env)=p.eval env.int := by simp [holds,start]
  have ho (env : Env) : holds o (start env)=holds o env := by
    have : o≠c := by omega
    simp [holds,start,this]
  have hc' (n : Nat) (env : Env) : holds c (execStmts states ss n (start env)).1=p.eval env.int :=
    (hs.frame n _ c (Nat.le_refl _)).trans (hc env)
  have ho' (n : Nat) (env : Env) : holds o (execStmts states ss n (start env)).1=holds o env :=
    (hs.frame n _ o (Nat.le_of_lt hoc)).trans (ho env)
  constructor
  · rw [emitStmts,emitStmts_append,hs.emits_eq,ht.emits_eq]
    rfl
  · intro n env
    rw [hstart,execStmts_append,hs.emits_eq]
    rw [ht.int,hs.int,ho',hc',ho,hc]
    cases holds o env <;> cases p.eval env.int <;> rfl
  · intro n env
    rw [hstart,execStmts_append,hs.emits_eq]
    rw [ht.emission,hs.emission,hs.int,ho',hc',ho,hc]
    cases holds o env <;> cases p.eval env.int <;> simp [start]
  · intro n env k hk
    rw [hstart,execStmts_append]
    rw [ht.frame _ _ k (by omega),hs.frame _ _ k (by omega)]
    have hne : k≠c := by omega
    simp [start,hne]

theorem visitIfConstruct_realises {states : List String}
    {visitIf : IfConvertor → ThreeOpCode × IfConvertor} {r r' : Run} {e e' : Nat}
    (p : Predicate) (hif : Implements states visitIf r e)
    (visitElse : Option (IfConvertor → ThreeOpCode × IfConvertor))
    (helse : match visitElse with
      | none => r'=(fun _ σ => (σ,[])) ∧ e'=0
      | some visit => Implements states visit r' e')
    (hid : v.outerPredId=predVarId o) (ho : o≤v.incr) :
    let out := visitIfConstruct p visitIf visitElse v
    v.incr≤out.2.incr ∧ out.2.outerPred=v.outerPred ∧ out.2.outerPredId=v.outerPredId ∧
      Realises states out.1.stmts v.incr (holds o) (fun n σ => if p.eval σ then r n σ else r' (n+e) σ) (e+e') := by
  obtain ⟨incr,outerPred,outerPredId⟩ := v
  dsimp only at hid ho ⊢
  subst hid
  let v₁ : IfConvertor := ⟨incr+1,outerPred,predVarId o⟩
  have hcur : o < incr+1 := by omega
  obtain ⟨hle₁,hthen⟩ := handleIfOrElse_realises hif v₁ o (incr+1) true
  cases visitElse with
  | none =>
    obtain ⟨rfl,rfl⟩ := helse
    refine ⟨le_of_succ_le hle₁,rfl,rfl,?_⟩
    have hcode := Realises.branch p hcur hthen (Realises.nil states _ _) (lt_succ_self incr)
    rw [append_nil] at hcode
    exact hcode
  | some visit =>
    let v₂ := restorePredContext ⟨incr,outerPred,predVarId o⟩
      (handleIfOrElse visitIf (.predId (predVarId (incr+1))) (.predId (predVarId o)) true v₁).2
    have hle₂ : incr+1≤v₂.incr := hle₁
    obtain ⟨hle₃,hels⟩ := handleIfOrElse_realises helse v₂ o (incr+1) false
    refine ⟨le_of_succ_le (Nat.le_trans hle₂ hle₃),rfl,rfl,?_⟩
    exact Realises.branch p hcur hthen (hels.mono hle₂) (lt_succ_self incr)
variable {v w : IfConvertor}
theorem IfConvertor.Guarded.of_eq (h : v.Guarded o) (hpred : w.outerPred=v.outerPred)
    (hid : w.outerPredId=v.outerPredId) (hle : v.incr≤w.incr) : w.Guarded o :=
  ⟨by rw [hpred,h.notTrue],by rw [hpred,h.notFalse],by rw [hid,h.outerPredId],Nat.le_trans h.le hle⟩

@[local simp] def Run.surround (states : List String) (pre : List Primitive) (r : Run) (e : Nat) (post : List Primitive) : Run :=
  Run.andThen (Run.andThen (runPrimitives states pre) (emitCount pre) r) (emitCount pre+e) (runPrimitives states post)
variable (pre : List Primitive) (p : Predicate)
theorem run_ifThen (thn : CodeBlock) (post : List Primitive) :
    (CodeBlock.ifThen pre p thn post).run states=Run.surround states pre
      (fun n σ => if p.eval σ then thn.run states n σ else (σ,[])) thn.emits post := by
  funext n σ
  simp [CodeBlock.run,Nat.add_assoc]

theorem run_ifElse (thn els : CodeBlock) (post : List Primitive) :
    (CodeBlock.ifElse pre p thn els post).run states=Run.surround states pre
      (fun n σ => if p.eval σ then thn.run states n σ else els.run states (n+thn.emits) σ)
      (thn.emits+els.emits) post := by
  funext n σ
  simp [CodeBlock.run,Nat.add_assoc]

private theorem surround_realises {states : List String} {o e : Nat}
    (hv : v.Guarded o) (hw : w.Guarded o) (pre post : List Primitive) {code : ThreeOpCode}
    {r : Run} (hcode : Realises states code.stmts v.incr (holds o) r e) :
    Realises states (((visitPrimitives v pre).orderedMerge code).orderedMerge (visitPrimitives w post)).stmts
      v.incr (holds o) (Run.surround states pre r e post) (emitCount pre+e+emitCount post) :=
  ((visitPrimitives_realises states hv pre v.incr).append hv.le hcode).append hv.le
    (visitPrimitives_realises states hw post v.incr)

theorem visitCodeBlock_implements (b : CodeBlock) : Implements states (visitCodeBlock b) (b.run states) b.emits := by
  induction b with
  | plain ps =>
    intro v o hv
    exact ⟨Nat.le_refl _,visitPrimitives_realises states hv ps v.incr⟩
  | ifThen pre p thn post ih =>
    intro v o hv
    obtain ⟨hle,hpred,hid,hcode⟩ := visitIfConstruct_realises p ih none ⟨rfl,rfl⟩ hv.outerPredId hv.le
    rw [run_ifThen]
    exact ⟨hle,surround_realises hv (hv.of_eq hpred hid hle) pre post hcode⟩
  | ifElse pre p thn els post ihthn ihels =>
    intro v o hv
    obtain ⟨hle,hpred,hid,hcode⟩ := visitIfConstruct_realises p ihthn
      (some (visitCodeBlock els)) ihels hv.outerPredId hv.le
    rw [run_ifElse,CodeBlock.emits,Nat.add_assoc (emitCount pre)]
    exact ⟨hle,surround_realises hv (hv.of_eq hpred hid hle) pre post hcode⟩

def CodeBlock.topLevel : CodeBlock → List Primitive
  | .plain ps => ps
  | .ifThen pre _ _ post => pre++post
  | .ifElse pre _ _ _ post => pre++post

theorem runPrimitives_append_fst (ps qs : List Primitive) (n m : Nat) (σ : Store) :
    (runPrimitives states (ps++qs) n σ).1 = (runPrimitives states qs m (runPrimitives states ps n σ).1).1 := by
  induction ps generalizing n σ with
  | nil =>
    induction qs generalizing n m σ with
    | nil => rfl
    | cons q qs ih =>
      cases q with
      | assign x e => exact ih m n _
      | skip => exact ih m n σ
      | emit => exact ih (m+1) (n+1) σ
  | cons p ps ih =>
    cases p with
    | assign x e => exact ih n _
    | skip => exact ih n σ
    | emit => exact ih (n+1) σ

structure IfConvertor.Outermost (v : IfConvertor) (o : Nat) : Prop where
  outerPred : v.outerPred=.predTrue
  outerPredId : v.outerPredId=predVarId o
  le : o≤v.incr

/-- At the outermost level assignments are unconditional; everything else depends on the
variable of the context, whatever its value is. -/
private theorem surround_outermost {states : List String} {o e : Nat}
    (hv : v.Outermost o) (hw : w.Outermost o) (pre post : List Primitive) (code : ThreeOpCode)
    {r : Run} (hcode : Realises states code.stmts v.incr (holds o) r e) (n : Nat) (env : Env) :
    let out := execStmts states
      (((visitPrimitives v pre).orderedMerge code).orderedMerge (visitPrimitives w post)).stmts n env
    out.1.int=(if holds o env then (Run.surround states pre r e post n env.int).1
        else (runPrimitives states (pre++post) n env.int).1) ∧
      out.2=(if holds o env then (Run.surround states pre r e post n env.int).2 else []) := by
  have hprims (u : IfConvertor) (hu : u.Outermost o) (ps : List Primitive) (m : Nat) (env : Env) :
      execStmts states (visitPrimitives u ps).stmts m env = (⟨(runPrimitives states ps m env.int).1,env.bool⟩,
          if holds o env then (runPrimitives states ps m env.int).2 else []) := by
    rw [visitPrimitives_exec states u (by rw [hu.outerPred]; rfl)]
    simp only [hu.outerPred,hu.outerPredId,isIdenticallyTrue,Bool.true_or,if_true]
    rfl
  have hmid (m : Nat) (env : Env) : holds o (execStmts states code.stmts m env).1=holds o env :=
    hcode.frame m env o hv.le
  intro out
  have hout : out=execStmts states ((visitPrimitives v pre).stmts++code.stmts ++
      (visitPrimitives w post).stmts) n env := rfl
  rw [execStmts_append,execStmts_append,hprims v hv,emitStmts_append,emitStmts_visitPrimitives,hcode.emits_eq] at hout
  rw [hprims w hw] at hout
  have hbool : holds o (⟨(runPrimitives states pre n env.int).1,env.bool⟩ : Env)=holds o env := rfl
  rw [hout]
  rw [hcode.int,hcode.emission,hmid,hbool]
  cases holds o env with
  | true => simp
  | false =>
    simp only [Bool.false_eq_true,if_false,append_nil,and_true]
    exact (runPrimitives_append_fst states pre post n _ env.int).symm

theorem visitCodeBlock_outermost (b : CodeBlock) (hv : v.Outermost o) (n : Nat) (env : Env) :
    let out := execStmts states (visitCodeBlock b v).1.stmts n env
    out.1.int=(if holds o env then (b.run states n env.int).1
        else (runPrimitives states b.topLevel n env.int).1) ∧
      out.2=(if holds o env then (b.run states n env.int).2 else []) := by
  have hkeep {w : IfConvertor} (hpred : w.outerPred=v.outerPred)
      (hid : w.outerPredId=v.outerPredId) (hle : v.incr≤w.incr) : w.Outermost o :=
    ⟨hpred.trans hv.outerPred,hid.trans hv.outerPredId,Nat.le_trans hv.le hle⟩
  cases b with
  | plain ps =>
    have h := surround_outermost hv hv ps [] .empty (Realises.nil states v.incr (holds o)) n env
    simpa [orderedMerge,empty,runPrimitives,visitCodeBlock,CodeBlock.run,CodeBlock.topLevel] using h
  | ifThen pre p thn post =>
    obtain ⟨hle,hpred,hid,hcode⟩ := visitIfConstruct_realises p
      (visitCodeBlock_implements states thn) none ⟨rfl,rfl⟩ hv.outerPredId hv.le
    rw [run_ifThen]
    exact surround_outermost hv (hkeep hpred hid hle) pre post _ hcode n env
  | ifElse pre p thn els post =>
    obtain ⟨hle,hpred,hid,hcode⟩ := visitIfConstruct_realises p
      (visitCodeBlock_implements states thn) (some (visitCodeBlock els))
      (visitCodeBlock_implements states els) hv.outerPredId hv.le
    rw [run_ifElse]
    exact surround_outermost hv (hkeep hpred hid hle) pre post _ hcode n env

def IfConvertor.outer : IfConvertor := ⟨incr+1,.predTrue,predVarId (incr+1)⟩

theorem visitAggFun_stmts : (visitAggFun f fnVars incr).1.stmts=.predAssign (predVarId (incr+1)) .predTrue ::
      (visitCodeBlock f.body (.outer incr)).1.stmts := rfl

theorem visitCodeBlock_outer (pred : AugPred) (env : Env) :
    let out := execStmts f.states (.predAssign (predVarId (incr+1)) pred ::
      (visitCodeBlock f.body (.outer incr)).1.stmts) 0 env
    out.1.int=(if pred.eval env then (f.run env.int).1
        else (runPrimitives f.states f.body.topLevel 0 env.int).1) ∧
      out.2=(if pred.eval env then (f.run env.int).2 else []) := by
  have hbody := visitCodeBlock_outermost f.states f.body (v := .outer incr) (o := incr+1)
    ⟨rfl,rfl,Nat.le_refl _⟩ 0 (env.setBool (predVarId (incr+1)) (pred.eval env))
  have hholds : holds (incr+1) (env.setBool (predVarId (incr+1)) (pred.eval env)) = pred.eval env := by simp [holds]
  rw [hholds] at hbody
  exact hbody

/-- If-conversion preserves meaning: from every initial values of the variables, the code of an
aggregation function ends with the same values of all user variables as its body, and its emits
are executed exactly where the body reaches them, in the same order and with the same values. -/
theorem visitAggFun_correct (f : AggFun) (fnVars : List String) (incr : Nat) (env : Env) :
    let out := execStmts f.states (visitAggFun f fnVars incr).1.stmts 0 env
    out.1.int=(f.run env.int).1 ∧ out.2=(f.run env.int).2 := by
  exact visitCodeBlock_outer f incr .predTrue env
end P4Benchmarks.Marple
