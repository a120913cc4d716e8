import P4Benchmarks.Marple.IfConvertor
/-!
# The linear-in-state pass

States whose every update has the form `A * s + B` are updated in one final statement.  A failed
Java assertion and a dereferenced `null` are errors.
-/
namespace P4Benchmarks.Marple
inductive JavaError where
  | assertion
  | nullPointer
  | indexOutOfBounds
  | runtime
deriving DecidableEq

theorem bind_eq_ok {α β : Type} {x : Except JavaError α} {f : α → Except JavaError β}
    {b : β} (h : (x >>= f)=.ok b) : ∃ a, x=.ok a ∧ f a=.ok b := by
  cases x with
  | error err => cases h
  | ok a => exact ⟨a,rfl,h⟩

def maxPktHistory : Int := 100
abbrev HistMap := String → Option Int
namespace AugExpr
def getUsedVars : AugExpr → List String
  | .id x => [x]
  | .val _ _ => []
  | .comb _ l r => l.getUsedVars++r.getUsedVars

def usesIdent (e : AugExpr) (var : String) : Bool := var ∈ e.getUsedVars
variable (var : String)
def isSingleIdentExpr : AugExpr → Bool
  | .id x => x==var
  | _ => false

def isValueExpr : AugExpr → Bool
  | .val _ _ => true
  | _ => false
variable (e : AugExpr)
def isLinearExpr : Bool :=
  if e.isSingleIdentExpr var then true
  else if e.isValueExpr then true
  else match e with
    | .comb .mul child0 child1 =>
      (child0.isSingleIdentExpr var&&!child1.usesIdent var) ||
        (child1.isSingleIdentExpr var&&!child0.usesIdent var)
    | _ => false

/-- A value passes `isLinearExpr` but has no children to look at. -/
def getLinearCoefficient : Except JavaError AugExpr :=
  if !e.isLinearExpr var then .error .assertion
  else if e.isSingleIdentExpr var then .ok (.const 1)
  else match e with
    | .comb _ child0 child1 => .ok (if child0.isSingleIdentExpr var then child1 else child0)
    | _ => .error .nullPointer

def getAffineCoefficients : Except JavaError (Option (AugExpr × AugExpr)) :=
  if e.isSingleIdentExpr var then .ok (some (.const 1,.const 0))
  else if e.isValueExpr then .ok (some (.const 0,e))
  else match e with
    | .comb .add child0 child1 =>
      if child0.isLinearExpr var&&!child1.usesIdent var then
        (child0.getLinearCoefficient var).map fun a => some (a,child1)
      else if child1.isLinearExpr var&&!child0.usesIdent var then
        (child1.getLinearCoefficient var).map fun a => some (a,child0)
      else .ok none
    | _ => .ok none
end AugExpr

def AugPred.getUsedVars : AugPred → List String
  | .predTrue => []
  | .predFalse => []
  | .predId x => [x]
  | .predEq l r => l.getUsedVars++r.getUsedVars
  | .predNe l r => l.getUsedVars++r.getUsedVars
  | .predGt l r => l.getUsedVars++r.getUsedVars
  | .predLt l r => l.getUsedVars++r.getUsedVars
  | .predAnd p q => p.getUsedVars++q.getUsedVars
  | .predOr p q => p.getUsedVars++q.getUsedVars
  | .predNot p => p.getUsedVars
namespace ThreeOpStmt
def getUsedVars : ThreeOpStmt → List String
  | .ternary _ predVar exprIf exprElse => predVar::(exprIf.getUsedVars++exprElse.getUsedVars)
  | .predAssign _ pred => pred.getUsedVars
  | .exprAssign _ expr => expr.getUsedVars
  | .emit _ => []

def getDefinedVar : ThreeOpStmt → Option String
  | .ternary result _ _ _ => some result
  | .predAssign result _ => some result
  | .exprAssign result _ => some result
  | .emit _ => none

def getUsedExprs : ThreeOpStmt → List AugExpr
  | .ternary _ _ exprIf exprElse => [exprIf,exprElse]
  | .exprAssign _ expr => [expr]
  | _ => []
end ThreeOpStmt

def getInfHistoryStates (states : List String) (hist : HistMap) : List String :=
  states.filter fun var => hist var==some maxPktHistory

def maxHist (hist : HistMap) : List String → Except JavaError Int
  | [] => .ok 0
  | x::xs =>
    match hist x with
    | none => .error .nullPointer
    | some h => (maxHist hist xs).map (max h)

def getPredHist (fieldList : List String) : List ThreeOpStmt → HistMap → Except JavaError HistMap
  | [], hist => .ok hist
  | .predAssign result pred::ss, hist => do
    let h ← maxHist hist (pred.getUsedVars.filter fun var => var ∉ fieldList)
    if (hist result).isSome then .error .assertion
    else getPredHist fieldList ss (Function.update hist result (some h))
  | _::ss, hist => getPredHist fieldList ss hist

def checkExprs (state : String) (hist : HistMap) : List AugExpr → Except JavaError Bool
  | [] => .ok true
  | expr::exprs => do
    match ← expr.getAffineCoefficients state with
    | none => .ok false
    | some (a,b) =>
      if (getInfHistoryStates a.getUsedVars hist).length > 0 then .ok false
      else if (getInfHistoryStates b.getUsedVars hist).length > 0 then .ok false
      else checkExprs state hist exprs

def checkPredVar (hist : HistMap) : ThreeOpStmt → Except JavaError Bool
  | .ternary _ predVar _ _ =>
    match hist predVar with
    | none => .error .assertion
    | some h => .ok (h != maxPktHistory)
  | _ => .ok true
variable (state : String)
def checkStmt (hist : HistMap) (stmt : ThreeOpStmt) : Except JavaError Bool := do
  if state ∈ stmt.getUsedVars ∧ stmt.getDefinedVar≠some state then .ok false
  else if stmt.getDefinedVar=some state then
    if stmt.getUsedExprs.length=0 then .ok false
    else if !(← checkPredVar hist stmt) then .ok false
    else checkExprs state hist stmt.getUsedExprs
  else .ok true

def detectLinearInState (state : String) (hist : HistMap) : List ThreeOpStmt → Except JavaError Bool
  | [] => .ok true
  | stmt::ss => do
    if !(← checkStmt state hist stmt) then .ok false
    else detectLinearInState state hist ss

/-- The name of a coefficient of `var`, which cannot appear in a user program. -/
def coeffName (suffix var : String) : String := "_" ++ var++suffix
def aCoeff (var : String) : String := coeffName "_a" var
def bCoeff (var : String) : String := coeffName "_b" var
def updateA (aId : String) (newExprA : AugExpr) : AugExpr := .comb .mul (.id aId) newExprA

def updateB (bId : String) (newExprA newExprB : AugExpr) : AugExpr :=
  .comb .add newExprB (.comb .mul newExprA (.id bId))

def affineCoefficients (e : AugExpr) : Except JavaError (AugExpr × AugExpr) := do
  match ← e.getAffineCoefficients state with
  | some c => .ok c
  | none => .error .indexOutOfBounds

/-- `adjustTernary` and `adjustExprAssign`; the else expression of a ternary is not looked at. -/
def adjustStmt : ThreeOpStmt → Except JavaError (List ThreeOpStmt)
  | .ternary result predVar exprIf exprElse =>
    if result=state then do
      let (a,b) ← affineCoefficients state exprIf
      .ok [.ternary (aCoeff state) predVar (updateA (aCoeff state) a) (.id (aCoeff state)),
        .ternary (bCoeff state) predVar (updateB (bCoeff state) a b) (.id (bCoeff state))]
    else .ok [.ternary result predVar exprIf exprElse]
  | .exprAssign result expr =>
    if result=state then do
      let (a,b) ← affineCoefficients state expr
      .ok [.exprAssign (aCoeff state) (updateA (aCoeff state) a),
        .exprAssign (bCoeff state) (updateB (bCoeff state) a b)]
    else .ok [.exprAssign result expr]
  | .predAssign result pred => if result=state then .error .assertion else .ok [.predAssign result pred]
  | .emit predVar => .ok [.emit predVar]

def adjustStmts (state : String) : List ThreeOpStmt → Except JavaError (List ThreeOpStmt)
  | [] => .ok []
  | s::ss => do .ok ((← adjustStmt state s)++(← adjustStmts state ss))

def finalUpdate : ThreeOpStmt :=
  .exprAssign state (.comb .add (.comb .mul (.id (aCoeff state)) (.id state)) (.id (bCoeff state)))

def adjustLinearInState (toc : ThreeOpCode) (state : String) : Except JavaError ThreeOpCode := do
  let body ← adjustStmts state toc.stmts
  .ok ⟨toc.decls++[⟨32,.int,aCoeff state⟩,⟨32,.int,bCoeff state⟩],
    [.exprAssign (aCoeff state) (.const 1),.exprAssign (bCoeff state) (.const 0)]++body ++ [finalUpdate state]⟩

structure LinearInput where
  toc : ThreeOpCode
  hist : HistMap
  (states fields : List String)

def allLinear (toc : ThreeOpCode) (hist : HistMap) : List String → Except JavaError Bool
  | [] => .ok true
  | state::rest => do
    let lis ← detectLinearInState state hist toc.stmts
    let others ← allLinear toc hist rest
    .ok (lis&&others)

def adjustAll (hist : HistMap) : List String → ThreeOpCode → Except JavaError ThreeOpCode
  | [], toc => .ok toc
  | state::rest, toc => do
    if ← detectLinearInState state hist toc.stmts then adjustAll hist rest (← adjustLinearInState toc state)
    else adjustAll hist rest toc
variable (g : LinearInput)
def LinearInput.infStates : List String := getInfHistoryStates g.states g.hist

def LinearInput.isLinear : Except JavaError Bool := do
  allLinear g.toc (← getPredHist g.fields g.toc.stmts g.hist) g.infStates

def LinearInput.transform : Except JavaError ThreeOpCode := do
  adjustAll (← getPredHist g.fields g.toc.stmts g.hist) g.infStates g.toc

def extractLinearUpdates (gs : List LinearInput) : Except JavaError (Option (List ThreeOpCode)) := do
  let lis ← gs.mapM LinearInput.isLinear
  if lis.all id then .ok (some (← gs.mapM LinearInput.transform))
  else .ok none
end P4Benchmarks.Marple
