import Mathlib.Data.Finset.Card
import P4Benchmarks.Lib.Outcome
import P4Benchmarks.Marple.Query
/-!
# Where queries run

Sets are Java objects: all visitors share the set of all switches, return it where a predicate does
not restrict the switches, and change it in place (`remove`, `retainAll`).  Every other set is new
where it is made.
-/
namespace P4Benchmarks.Marple
open Lib Outcome
def switchHdr : String := "switch"
def uidHdr : String := "uid"
abbrev Switches := Finset (BitVec 32)
def allSwitches : Switches := (Finset.range 20).image (.ofNat 32)

/-- A reference to a set: the shared one, or one of its own with its content. -/
inductive SetRef where
  | shared
  | own (s : Switches)
deriving DecidableEq

def SetRef.read (all : Switches) : SetRef → Switches
  | .shared => all
  | .own s => s

def Expr.isValueExpr : Expr → Bool
  | .col _ => false
  | .val v => v≠.infinity
  | .comb _ l r => l.isValueExpr&&r.isValueExpr
  | .paren e => e.isValueExpr

/-- Java's arithmetic on `Integer`s; a division by zero throws. -/
def ArithOp.javaEval : ArithOp → BitVec 32 → BitVec 32 → Except JavaError (BitVec 32)
  | .add, x, y => pure (x+y)
  | .sub, x, y => pure (x-y)
  | .mul, x, y => pure (x*y)
  | .div, x, y => if y=0 then throw .runtime else pure (x.sdiv y)

def Expr.evaluateValue : Expr → Except JavaError (BitVec 32)
  | .col _ => pure (-1)
  | .val (.number n) => pure (.ofNat 32 n)
  | .val .infinity => pure (-1)
  | .comb op l r => do
    let e1 ← l.evaluateValue
    let e2 ← r.evaluateValue
    op.javaEval e1 e2
  | .paren e => e.evaluateValue

def Expr.isSwitchExpr (e : Expr) : Bool := e==.col switchHdr

def switchConstant (l r : Expr) : Option Expr :=
  if l.isSwitchExpr&&r.isValueExpr then some r
  else if r.isSwitchExpr&&l.isValueExpr then some l
  else none

def getSwValue (l r : Expr) : Except JavaError (Option (BitVec 32)) :=
  match switchConstant l r with
  | some e => some <$> e.evaluateValue
  | none => pure none

def visitPredicate : Predicate → Switches → Except JavaError (SetRef × Switches)
  | .eq l r, all => do
    match ← getSwValue l r with
    | some k => pure (.own {k},all)
    | none => pure (.shared,all)
  | .gt _ _, all => pure (.shared,all)
  | .lt _ _, all => pure (.shared,all)
  | .ne l r, all => do
    match ← getSwValue l r with
    | some k => pure (.shared,all.erase k)
    | none => pure (.shared,all)
  | .and p q, all => do
    let (first,all) ← visitPredicate p all
    let inter := first.read all
    let (second,all) ← visitPredicate q all
    pure (.own (inter ∩ second.read all),all)
  | .or p q, all => do
    let (first,all) ← visitPredicate p all
    let union := first.read all
    let (second,all) ← visitPredicate q all
    pure (.own (union ∪ second.read all),all)
  | .paren p, all => visitPredicate p all
  | .not p, all => do
    -- the copy is made before the inner predicate is visited
    let diff := all
    let (inner,all) ← visitPredicate p all
    pure (.own (diff \ inner.read all),all)
  | .true, all => pure (.shared,all)
  | .false, all => pure (.own ∅,all)

inductive StreamType where
  | singleSwitchStream | multiSwitchStream
deriving DecidableEq

structure OpLocation where
  switchSet : SetRef
  streamType : StreamType
deriving DecidableEq

inductive LocatedExprTree where
  | pktlog (opl : OpLocation)
  | unary (query : StreamQuery) (opl : OpLocation) (input : LocatedExprTree)
  | join (query : StreamQuery) (opl : OpLocation) (first second : LocatedExprTree)
namespace LocatedExprTree
def opl : LocatedExprTree → OpLocation
  | .pktlog opl => opl
  | .unary _ opl _ => opl
  | .join _ opl _ _ => opl

def nodes : LocatedExprTree → List (StreamQuery × OpLocation)
  | .pktlog _ => []
  | .unary q opl input => (q,opl)::input.nodes
  | .join q opl first second => (q,opl)::first.nodes++second.nodes
end LocatedExprTree

structure AnalyzerState where
  all : Switches
  isTopLevel : Bool

def SetRef.retainAll (swSet : SetRef) (input all : Switches) : SetRef × Switches :=
  match swSet with
  | .shared => (.shared,all ∩ input)
  | .own s => (.own (s ∩ input),all)

def filterType (input : StreamType) (size : Nat) : StreamType :=
  if input=.singleSwitchStream then .singleSwitchStream
  else if 1 < size then .multiSwitchStream
  else .singleSwitchStream

/-- The stream type of a fold, or an exception.  `assoc` is `aggFunAssocMap.get(aggFunc)`; it is
`null` for an unknown function. -/
def foldType (input : StreamType) (columns : List String) (assoc : Option Bool)
    (isGroupTopLevel : Bool) : Except JavaError StreamType :=
  if switchHdr ∈ columns ∨ input=.singleSwitchStream then pure .singleSwitchStream
  else if uidHdr ∈ columns then pure input
  else
    match assoc with
    | none => throw .nullPointer
    | some isAssoc => if isAssoc&&isGroupTopLevel then pure input else throw .runtime

def zipType (first second : StreamType) : StreamType := if first=second then first else .singleSwitchStream

section Analyzer
variable (prog : Prog) (aggFunAssocMap : String → Option Bool)
def recurseDeps (visit : StreamQuery → AnalyzerState → Outcome JavaError (LocatedExprTree × AnalyzerState))
    (stream : String) (st : AnalyzerState) :
    Outcome JavaError (LocatedExprTree × AnalyzerState) :=
  if stream=pktLogStr then pure (.pktlog ⟨.own allSwitches,.multiSwitchStream⟩,st)
  else
    match prog.symTree stream with
    | none => throw .nullPointer
    | some query => visit query st

def visitQuery : Nat → StreamQuery → AnalyzerState → Outcome JavaError (LocatedExprTree × AnalyzerState)
  | 0, _, _ => tooDeep
  | depth+1, .filter stream p, st => do
    let (swSet,all) ← ExceptT.mk (some (visitPredicate p st.all))
    let (letInput,st) ← recurseDeps prog (visitQuery depth) stream ⟨all,false⟩
    let (swSet,all) := swSet.retainAll (letInput.opl.switchSet.read st.all) st.all
    let streamType := filterType letInput.opl.streamType (swSet.read all).card
    pure (.unary (.filter stream p) ⟨swSet,streamType⟩ letInput,⟨all,st.isTopLevel⟩)
  | depth+1, .map stream columns exprs, st => do
    let (letInput,st) ← recurseDeps prog (visitQuery depth) stream ⟨st.all,false⟩
    pure (.unary (.map stream columns exprs) letInput.opl letInput,st)
  | depth+1, .groupby stream columns aggFunc, st => do
    let isGroupTopLevel := st.isTopLevel
    let (letInput,st) ← recurseDeps prog (visitQuery depth) stream ⟨st.all,false⟩
    let streamType ← ExceptT.mk (some (foldType letInput.opl.streamType columns
      (aggFunAssocMap aggFunc) isGroupTopLevel))
    pure (.unary (.groupby stream columns aggFunc) ⟨letInput.opl.switchSet,streamType⟩ letInput,st)
  | depth+1, .zip stream stream', st => do
    let (letFirst,st) ← recurseDeps prog (visitQuery depth) stream ⟨st.all,false⟩
    let (letSecond,st) ← recurseDeps prog (visitQuery depth) stream' st
    let resultSet := letFirst.opl.switchSet.read st.all ∩ letSecond.opl.switchSet.read st.all
    let resultType := zipType letFirst.opl.streamType letSecond.opl.streamType
    pure (.join (.zip stream stream') ⟨.own resultSet,resultType⟩ letFirst letSecond,st)

def analyze (depth : Nat) : Outcome JavaError (LocatedExprTree × AnalyzerState) :=
  match prog.symTree prog.lastAssignedId with
  | none => throw .nullPointer
  | some query => visitQuery prog aggFunAssocMap depth query ⟨allSwitches,true⟩
end Analyzer
end P4Benchmarks.Marple
