import Mathlib.Data.Set.Finite.List
import P4Benchmarks.Lib.Outcome
import P4Benchmarks.Marple.Query
/-!
# Stitching the stages of a program

`ExprTreeCreator.buildExprTree` and `PipeConstructor.stitchPipe` follow the operands of the last
assigned stream through a table that is keyed by stream name.
-/
namespace P4Benchmarks.Marple
open Lib Outcome Relation
def packetLogFields : List String :=
  ["switch","uid","srcip","dstip","srcport","dstport","tcpseq","proto","inport","outport",
    "payloadlen","pktlen","qid","tin","tout","pktpath","qin","qout","qtime"]

inductive ExprTree where
  | node (opcode : OperationType) (operands : List ExprTree)

structure PipeStage where
  line : Nat
  pipeName : String
  op : OperationType
  (setFields usedFields fields : List String)
deriving DecidableEq
namespace Prog
def pipeStage (prog : Prog) (line : Nat) (s : StreamStmt) : PipeStage :=
  match s.query with
  | .filter _ p => ⟨line,s.stream,.filter,[],(AugPred.ofPredicate p).getUsedVars,[]⟩
  | .map _ columns exprs =>
    ⟨line,s.stream,.project,columns,exprs.flatMap fun e => (AugExpr.ofExpr e).getUsedVars,[]⟩
  | .groupby _ columns aggFunc =>
    ⟨line,s.stream,.groupby,prog.stateVars aggFunc++columns,prog.fieldVars aggFunc++columns,[]⟩
  | .zip _ _ => ⟨line,s.stream,.join,[],[],[]⟩

def queryToPipe (prog : Prog) : String → Option PipeStage := prog.tabulate prog.pipeStage

def buildExprTree (prog : Prog) : Nat → String → Outcome JavaError ExprTree
  | 0, _ => tooDeep
  | depth+1, idName =>
    if idName=pktLogStr then pure (.node .pktlog [])
    else
      match prog.depTable idName with
      | none => throw .runtime
      | some operation => do
        let children ← operation.operands.mapM (prog.buildExprTree depth)
        pure (.node operation.opcode children)
end Prog

structure PipeConstructor where
  visited : List String
  schema : String → Option (List String)

def PipeConstructor.init : PipeConstructor where
  visited := []
  schema := Function.update (fun _ => none) pktLogStr (some packetLogFields)

def getSchemaFields (op : OperationType) (inputFieldSet setFields : List String) : List String :=
  match op with
  | .filter => inputFieldSet
  | .join => inputFieldSet
  | .project => setFields++inputFieldSet
  | .groupby => setFields
  | .pktlog => packetLogFields

def visitOperand (getPipes : String → PipeConstructor → Outcome JavaError (List PipeStage × PipeConstructor))
    (operand : String) (pc : PipeConstructor) :
    Outcome JavaError (List PipeStage × PipeConstructor) :=
  if operand≠pktLogStr ∧ operand ∉ pc.visited then getPipes operand pc else pure ([],pc)

def visitOperands (getPipes : String → PipeConstructor → Outcome JavaError (List PipeStage × PipeConstructor)) :
    List String → PipeConstructor → Outcome JavaError (List PipeStage × List String × PipeConstructor)
  | [], pc => pure ([],[],pc)
  | operand::operands, pc => do
    let (stages,pc) ← visitOperand getPipes operand pc
    match pc.schema operand with
    | none => throw .nullPointer
    | some fields => do
      let (stages',fields',pc) ← visitOperands getPipes operands pc
      pure (stages++stages',fields++fields',pc)
namespace Prog
def getPipes (prog : Prog) : Nat → String → PipeConstructor → Outcome JavaError (List PipeStage × PipeConstructor)
  | 0, _, _ => tooDeep
  | depth+1, queryId, pc =>
    match prog.depTable queryId, prog.queryToPipe queryId with
    | some op, some stage => do
      let (stageList,inputFieldSet,pc) ← visitOperands (prog.getPipes depth) op.operands pc
      let querySchema := getSchemaFields op.opcode inputFieldSet stage.setFields
      let schema := Function.update pc.schema queryId (some querySchema)
      if stage.usedFields.all (· ∈ inputFieldSet) then
        pure (stageList++[{ stage with fields := stage.fields++querySchema }],⟨queryId::pc.visited,schema⟩)
      else throw .runtime
    | _, _ => throw .assertion

def stitchPipe (prog : Prog) (depth : Nat) : Outcome JavaError (List PipeStage) := do
  let (pipe,_) ← prog.getPipes depth prog.lastAssignedId .init
  pure pipe
end Prog
end P4Benchmarks.Marple
