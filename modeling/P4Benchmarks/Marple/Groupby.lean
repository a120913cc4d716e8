import P4Benchmarks.Lib.Execution
import P4Benchmarks.Lib.Register
import P4Benchmarks.Marple.GeneratedCode
/-!
# The groupby stage

`FoldConfigInfo` makes the code of an aggregation function respect the validity of the stream it
reads, and `groupby.tmpl` runs that code on the values of one hash bucket.
-/
namespace P4Benchmarks.Marple
open Lib
inductive AggFunVarType where
  | field
  | state
  | predVar
  | fnVar
deriving DecidableEq

abbrev SymTab := List (String × AggFunVarType)
def SymTab.containsKey (symTab : SymTab) (x : String) : Bool := symTab.any fun e => e.1==x
variable (queryId : String)
def tmpTransformQueryId : String := "_tmp_" ++ queryId ++ "_valid"
def fieldTransformQueryId : String := "_" ++ queryId ++ "_valid"

structure PipeConfigInfo where
  code : ThreeOpCode
  symTab : SymTab
  (preamble postamble : ThreeOpCode)
variable (info : PipeConfigInfo)
/-- Declare a boolean for the validity of `tmp`, which is read from the packet field before the
stage or written back to it after the stage. -/
def PipeConfigInfo.addTmpOfField (tmp : String) (readOffField : Bool) : PipeConfigInfo :=
  let tmpId := tmpTransformQueryId tmp
  let fieldId := fieldTransformQueryId tmp
  if info.symTab.containsKey tmpId then info
  else
    { info with
      preamble :=
        { decls := info.preamble.decls++[⟨1,.bool,tmpId⟩]
          stmts := info.preamble.stmts ++
            if readOffField then [.predAssign tmpId (.predEq (.id fieldId) (.val 1 1))] else [] }
      postamble :=
        { info.postamble with
          stmts := info.postamble.stmts ++ if readOffField then [] else [.ternary fieldId tmpId (.val 1 1) (.val 0 1)] }
      symTab := (fieldId,.field)::(tmpId,.fnVar)::info.symTab }

def PipeConfigInfo.stmts : List ThreeOpStmt := info.preamble.stmts++info.code.stmts++info.postamble.stmts

structure FoldConfigInfo extends PipeConfigInfo where
  (keyFields stateArgs : List String)
  outerPredId : Option String

def FoldConfigInfo.new (keyFields : List String) (code : ThreeOpCode) (symTab : SymTab)
    (stateArgs : List String) : FoldConfigInfo where
  code := code
  symTab := symTab
  preamble := .empty
  postamble := .empty
  keyFields := keyFields
  stateArgs := stateArgs
  outerPredId := code.peekIdFirstDecl

def validLine (outerPredId : Option String) (operandPred : AugPred) : ThreeOpStmt → List ThreeOpStmt
  | .predAssign result pred =>
    if some result=outerPredId then [.predAssign result operandPred]
    else [.predAssign result pred]
  | .emit predVar =>
    -- the result is valid if the emit is reached, here or at an earlier emit
    [.predAssign (tmpTransformQueryId queryId)
      ((AugPred.predId predVar).or (.predId (tmpTransformQueryId queryId))),.emit predVar]
  | line => [line]

def FoldConfigInfo.addValidStmt (info : FoldConfigInfo) (queryId operandQueryId : String)
    (isOperandPktLog : Bool) : FoldConfigInfo :=
  let operandPred := if isOperandPktLog then .predTrue else .predId (tmpTransformQueryId operandQueryId)
  let pipe := info.toPipeConfigInfo.addTmpOfField queryId false
  let pipe := if isOperandPktLog then pipe else pipe.addTmpOfField operandQueryId true
  { info with
    toPipeConfigInfo :=
      { pipe with
        code :=
          { info.code with
            stmts := .predAssign (tmpTransformQueryId queryId) .predFalse ::
              info.code.stmts.flatMap (validLine queryId info.outerPredId operandPred) } } }

def tableSize : Nat := 1024

@[ext] structure Registers where
  (regK regV : String → Register tableSize 32)

structure ActionResult where
  registers : Registers
  (evictedKey evictedValue : String → BitVec 32)
  env : Env
  emitted : List Emission

structure Groupby where
  (keyFields valueFields : List String)
  hash : List (BitVec 32) → Fin tableSize
namespace Groupby
variable (stage : Groupby)
def hashTableIndex (pkt : Env) : Fin tableSize := stage.hash (stage.keyFields.map pkt.int)
variable (regs : Registers)
def noKeyPresent (i : Fin tableSize) : Bool := stage.keyFields.all fun field => regs.regK field i==0
variable (pkt : Env) (i : Fin tableSize)
def keyMatches : Bool := stage.keyFields.all fun field => regs.regK field i==pkt.int field
def ok : Bool := stage.keyMatches regs pkt i || stage.noKeyPresent regs i

def start : Env :=
  let i := stage.hashTableIndex pkt
  { pkt with
    int := fun x =>
      if x ∈ stage.valueFields then if stage.ok regs pkt i then regs.regV x i else 0
      else pkt.int x }
variable (update : Env → Env × List Emission) (regs : Registers)
@[local simp] def action (pkt : Env) : ActionResult :=
  let i := stage.hashTableIndex pkt
  let ok := stage.ok regs pkt i
  let out := update (stage.start regs pkt)
  { registers :=
      { regK := fun field =>
          if field ∈ stage.keyFields then (regs.regK field).write i (pkt.int field)
          else regs.regK field
        regV := fun field =>
          if field ∈ stage.valueFields then (regs.regV field).write i (out.1.int field)
          else regs.regV field }
    evictedKey := fun field => if ok then 0 else regs.regK field i
    evictedValue := fun field => if ok then 0 else regs.regV field i
    env := out.1
    emitted := out.2 }

def run (pkts : List Env) : Registers :=
  pkts.foldl (fun regs pkt => (stage.action update regs pkt).registers) regs
variable {stage} {regs : Registers}
theorem action_registers_congr {update update' : Env → Env × List Emission} {pkt : Env} (h : ∀ x ∈ stage.valueFields,
      (update (stage.start regs pkt)).1.int x=(update' (stage.start regs pkt)).1.int x) :
    (stage.action update regs pkt).registers=(stage.action update' regs pkt).registers := by
  apply Registers.ext
  · rfl
  · funext x
    by_cases hx : x ∈ stage.valueFields
    · simp [if_pos hx,h x hx]
    · simp [if_neg hx]

theorem keyMatches_iff {pkt : Env} {i : Fin tableSize} : stage.keyMatches regs pkt i ↔
      ∀ field ∈ stage.keyFields, regs.regK field i=pkt.int field := by
  simp [keyMatches]

theorem action_registers_eq_self_iff {update : Env → Env × List Emission} {pkt : Env} :
    (stage.action update regs pkt).registers=regs ↔ stage.keyMatches regs pkt (stage.hashTableIndex pkt) ∧
    ∀ x ∈ stage.valueFields, (update (stage.start regs pkt)).1.int x = regs.regV x (stage.hashTableIndex pkt) := by
  rw [Registers.ext_iff,keyMatches_iff,funext_iff,funext_iff]
  refine and_congr (forall_congr' fun field => ?_) (forall_congr' fun x => ?_)
  · by_cases hfield : field ∈ stage.keyFields
    · simp [hfield,Register.write_eq_self_iff,forall_const]
    · simp [hfield]
  · by_cases hx : x ∈ stage.valueFields
    · simp only [action,hx,if_true,Register.write_eq_self_iff,forall_const]
      exact eq_comm
    · simp [hx]
end Groupby

def isValid (pkt : Env) : Bool := pkt.int (fieldTransformQueryId queryId)==1

def AggFun.update (f : AggFun) (env : Env) : Env × List Emission :=
  ({ env with int := (f.run env.int).1 },(f.run env.int).2)
namespace FoldConfigInfo
variable (info : FoldConfigInfo)
def update (env : Env) : Env × List Emission := execStmts info.stateArgs info.stmts 0 env

def stage (hash : List (BitVec 32) → Fin tableSize) : Groupby where
  keyFields := info.keyFields
  valueFields := info.stateArgs
  hash := hash
end FoldConfigInfo
end P4Benchmarks.Marple
