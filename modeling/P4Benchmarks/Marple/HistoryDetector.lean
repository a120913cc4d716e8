import P4Benchmarks.Marple.PredTree
/-!
# Packet histories

`HistoryDetector` bounds how many earlier packets a variable can depend on.  It repeats its visit
until the bounds no longer change.
-/
namespace P4Benchmarks.Marple
open List
abbrev VarMap (α : Type) := List (String × α)
def VarMap.put {α : Type} (m : VarMap α) (x : String) (v : α) : VarMap α := (x,v)::m.filter fun e => e.1 != x

theorem VarMap.lookup_put {α : Type} (m : VarMap α) (x : String) (v : α) (y : String) :
    (m.put x v).lookup y = if y=x then some v else m.lookup y := by
  by_cases hy : y=x
  · simp [VarMap.put,hy]
  · have hbeq : (y==x)=false := beq_eq_false_iff_ne.mpr hy
    have hfilter : (m.filter fun e => e.1 != x).lookup y=m.lookup y := by
      induction m with
      | nil => rfl
      | cons e m ih =>
        obtain ⟨k,w⟩ := e
        by_cases hk : k=x
        · rw [filter_cons_of_neg (by simp [hk]),ih,lookup_cons,hk,hbeq]
        · rw [filter_cons_of_pos (by simpa using hk),lookup_cons,lookup_cons,ih]
    rw [VarMap.put,lookup_cons,hbeq,if_neg hy]
    exact hfilter

structure PredContext where
  outerPred : AugPred
  outerPredId : PredNode
  outerPredHist : PredHist
section Visitor

/-! The visitor of one iteration.  `prevIterHist` has the results of the iteration before, each a
single history for the whole function; `curr` is `currIterHist`. -/

variable (f : AggFun) (prevIterHist : VarMap Int) (curr : VarMap PredHist)
def defaultHist (ident : String) : Except JavaError Int :=
  match prevIterHist.lookup ident with
  | some h => .ok (min (h+1) maxPktHistory)
  | none =>
    if ident ∈ f.fields then .ok 0
    else if ident ∈ f.states then .ok maxPktHistory
    else if (curr.lookup ident).isSome then .ok (-1)
    else .error .assertion

def getHist (givenOuterPredId : PredNode) (ident : String) : Except JavaError PredHist := do
  let defaultHist ← defaultHist f prevIterHist curr ident
  match curr.lookup ident with
  | some hists => hists.getRelevantPredHist givenOuterPredId defaultHist (-1)
  | none => .ok [(givenOuterPredId,defaultHist)]

def maxHistFrom (curr : VarMap PredHist) (givenOuterPredId : PredNode) :
    PredHist → List String → Except JavaError PredHist
  | maxhist, [] => .ok maxhist
  | maxhist, var::vars => do
    let hist ← getHist f prevIterHist curr givenOuterPredId var
    maxHistFrom curr givenOuterPredId (← maxhist.getMaxHist hist) vars

def getHistFromList (usedVars : List String) (givenOuterPredId : PredNode) : Except JavaError PredHist :=
  maxHistFrom f prevIterHist curr givenOuterPredId [(givenOuterPredId,0)] usedVars

def visitPrimitiveHist (ctx : PredContext) (curr : VarMap PredHist) : Primitive → Except JavaError (VarMap PredHist)
  | .assign ident e => do
    let exprHist ← getHistFromList f prevIterHist curr (AugExpr.ofExpr e).getUsedVars
      ctx.outerPredId
    let relevantOuterHist ← ctx.outerPredHist.getRelevantPredHist ctx.outerPredId (-1) (-1)
    let assignHist ← exprHist.getMaxHist relevantOuterHist
    match curr.lookup ident with
    | some hists => .ok (curr.put ident (← hists.setHist assignHist))
    | none => .ok (curr.put ident assignHist)
  | .skip => .ok curr
  | .emit => .ok curr

def visitPrimitivesHist (ctx : PredContext) : VarMap PredHist → List Primitive → Except JavaError (VarMap PredHist)
  | curr, [] => .ok curr
  | curr, p::ps => do
    visitPrimitivesHist ctx (← visitPrimitiveHist f prevIterHist ctx curr p) ps

/-- The context of a branch: its predicate and node, and the history of the predicate under the
node of the enclosing context. -/
def restoreFromStoredContext (outerPred : AugPred)
    (outerPredId givenOuterPredId : PredNode) : Except JavaError PredContext := do
  let outerPredHist ← getHistFromList f prevIterHist curr outerPred.getUsedVars givenOuterPredId
  .ok ⟨outerPred,outerPredId,outerPredHist⟩

def visitCodeBlockHist : CodeBlock → PredContext → VarMap PredHist → Except JavaError (VarMap PredHist)
  | .plain ps, ctx, curr => visitPrimitivesHist f prevIterHist ctx curr ps
  | .ifThen pre p thn post, ctx, curr => do
    let curr ← visitPrimitivesHist f prevIterHist ctx curr pre
    let ctxIf ← restoreFromStoredContext f prevIterHist curr (ctx.outerPred.and (.ofPredicate p))
      (true::ctx.outerPredId) ctx.outerPredId
    let curr ← visitCodeBlockHist thn ctxIf curr
    visitPrimitivesHist f prevIterHist ctx curr post
  | .ifElse pre p thn els post, ctx, curr => do
    let curr ← visitPrimitivesHist f prevIterHist ctx curr pre
    let ctxIf ← restoreFromStoredContext f prevIterHist curr (ctx.outerPred.and (.ofPredicate p))
      (true::ctx.outerPredId) ctx.outerPredId
    let curr ← visitCodeBlockHist thn ctxIf curr
    let ctxElse ← restoreFromStoredContext f prevIterHist curr
      (ctx.outerPred.and (AugPred.ofPredicate p).not) (false::ctx.outerPredId) ctx.outerPredId
    let curr ← visitCodeBlockHist els ctxElse curr
    visitPrimitivesHist f prevIterHist ctx curr post
end Visitor

/-- One history for the whole function.  Where a state is not assigned it keeps a value of
unbounded history. -/
def squashEntry (states : List String) (var : String) (varHist : PredHist) : Except JavaError Int := do
  if var ∈ states then
    let adjustedHist ← PredHist.setHist [([],maxPktHistory)] varHist
    .ok adjustedHist.squash
  else .ok varHist.squash

def squashEntries (states : List String) : VarMap PredHist → Except JavaError (VarMap Int)
  | [] => .ok []
  | (var,varHist)::rest => do
    let h ← squashEntry states var varHist
    .ok ((var,h)::(← squashEntries states rest))

def squashIterHist (states : List String) (iterHist : VarMap PredHist) : Except JavaError (VarMap Int) := do
  let seen ← squashEntries states iterHist
  .ok (seen++(states.filter fun x => !(iterHist.lookup x).isSome).map fun unseen => (unseen,-1))

def reachedFixedPoint (prevHist currHist : VarMap Int) : Bool :=
  (prevHist.all fun e => (currHist.lookup e.1).isSome)&&currHist.all fun e => prevHist.lookup e.1==some e.2

def iterateHist (f : AggFun) (prevIterHist : VarMap Int) : Except JavaError (VarMap Int) := do
  let ctx ← restoreFromStoredContext f prevIterHist [] .predTrue [] []
  let curr ← visitCodeBlockHist f prevIterHist f.body ctx []
  squashIterHist f.states curr

def historyLoop (f : AggFun) : Nat → VarMap Int → Except JavaError (VarMap Int)
  | 0, prevIterHist => .ok prevIterHist
  | n+1, prevIterHist => do
    let squashed ← iterateHist f prevIterHist
    if reachedFixedPoint prevIterHist squashed then .ok squashed
    else historyLoop f n squashed

def getConvergedHistory (f : AggFun) : Except JavaError (VarMap Int) := historyLoop f maxPktHistory.toNat []
end P4Benchmarks.Marple
