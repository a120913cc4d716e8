import P4Benchmarks.Marple.Syntax
/-!
# Three-operand code

`AugExpr`, `AugPred`, `ThreeOpStmt` and `ThreeOpCode`: the straight-line code that the Marple
compiler produces for an aggregation function, and its execution.
-/
namespace P4Benchmarks.Marple
open Function
inductive Binop where
  | add | sub | mul | div | rshift
deriving DecidableEq

inductive AugExpr where
  | id (ident : String)
  | val (value width : Nat)
  | comb (op : Binop) (l r : AugExpr)
deriving DecidableEq

def AugExpr.const (value : Nat) : AugExpr := .val value 32

inductive AugPred where
  | predTrue
  | predFalse
  | predId (predId : String)
  | predEq (l r : AugExpr)
  | predNe (l r : AugExpr)
  | predGt (l r : AugExpr)
  | predLt (l r : AugExpr)
  | predAnd (p q : AugPred)
  | predOr (p q : AugPred)
  | predNot (p : AugPred)
deriving DecidableEq

inductive ThreeOpStmt where
  | ternary (result predVar : String) (exprIf exprElse : AugExpr)
  | predAssign (result : String) (pred : AugPred)
  | exprAssign (result : String) (expr : AugExpr)
  | emit (predVar : String)
deriving DecidableEq

inductive ValType where
  | int | bool
deriving DecidableEq

structure ThreeOpDecl where
  bitWidth : Nat
  valType : ValType
  ident : String
deriving DecidableEq

structure ThreeOpCode where
  decls : List ThreeOpDecl
  stmts : List ThreeOpStmt
deriving DecidableEq
namespace AugPred
def isIdenticallyTrue : AugPred → Bool
  | .predTrue => true
  | _ => false

def isIdenticallyFalse : AugPred → Bool
  | .predFalse => true
  | _ => false

def and (p other : AugPred) : AugPred :=
  if p.isIdenticallyTrue then other
  else if other.isIdenticallyTrue then p
  else if p.isIdenticallyFalse || other.isIdenticallyFalse then .predFalse
  else .predAnd p other

def or (p other : AugPred) : AugPred :=
  if p.isIdenticallyFalse then other
  else if other.isIdenticallyFalse then p
  else if p.isIdenticallyTrue || other.isIdenticallyTrue then .predTrue
  else .predOr p other

def not (p : AugPred) : AugPred :=
  if p.isIdenticallyTrue then .predFalse
  else if p.isIdenticallyFalse then .predTrue
  else .predNot p
end AugPred
namespace ThreeOpCode
def empty : ThreeOpCode := ⟨[],[]⟩
def orderedMerge (c other : ThreeOpCode) : ThreeOpCode := ⟨c.decls++other.decls,c.stmts++other.stmts⟩
def peekIdFirstDecl (c : ThreeOpCode) : Option String := c.decls.head?.map ThreeOpDecl.ident
end ThreeOpCode

def ArithOp.toBinop : ArithOp → Binop
  | .add => .add
  | .sub => .sub
  | .mul => .mul
  | .div => .div

def AugExpr.ofExpr : Expr → AugExpr
  | .col x => .id x
  | .val v => .const v.toNat
  | .comb op l r => .comb op.toBinop (ofExpr l) (ofExpr r)
  | .paren e => ofExpr e

@[local simp] def AugPred.ofPredicate : Predicate → AugPred
  | .eq l r => .predEq (.ofExpr l) (.ofExpr r)
  | .gt l r => .predGt (.ofExpr l) (.ofExpr r)
  | .lt l r => .predLt (.ofExpr l) (.ofExpr r)
  | .ne l r => .predNe (.ofExpr l) (.ofExpr r)
  | .and p q => .predAnd (ofPredicate p) (ofPredicate q)
  | .or p q => .predOr (ofPredicate p) (ofPredicate q)
  | .paren p => ofPredicate p
  | .not p => .predNot (ofPredicate p)
  | .true => .predTrue
  | .false => .predFalse

structure Env where
  int : Store
  bool : String → Bool

def Binop.eval : Binop → BitVec 32 → BitVec 32 → BitVec 32
  | .add, x, y => x+y
  | .sub, x, y => x-y
  | .mul, x, y => x*y
  | .div, x, y => x/y
  | .rshift, x, y => x>>>y

def AugExpr.eval (σ : Store) : AugExpr → BitVec 32
  | .id x => σ x
  | .val v w => (BitVec.ofNat w v).setWidth 32
  | .comb op l r => op.eval (l.eval σ) (r.eval σ)

def AugPred.eval (env : Env) : AugPred → Bool
  | .predTrue => true
  | .predFalse => false
  | .predId x => env.bool x
  | .predEq l r => l.eval env.int==r.eval env.int
  | .predNe l r => l.eval env.int != r.eval env.int
  | .predGt l r => (r.eval env.int).ult (l.eval env.int)
  | .predLt l r => (l.eval env.int).ult (r.eval env.int)
  | .predAnd p q => p.eval env&&q.eval env
  | .predOr p q => p.eval env || q.eval env
  | .predNot p => !p.eval env
variable (env : Env)
def Env.setInt (x : String) (v : BitVec 32) : Env := { env with int := update env.int x v }
def Env.setBool (x : String) (b : Bool) : Env := { env with bool := update env.bool x b }

def ThreeOpStmt.exec : ThreeOpStmt → Env
  | .ternary result predVar exprIf exprElse =>
    env.setInt result (if env.bool predVar then exprIf.eval env.int else exprElse.eval env.int)
  | .predAssign result pred => env.setBool result (pred.eval env)
  | .exprAssign result expr => env.setInt result (expr.eval env.int)
  | .emit _ => env

def ThreeOpStmt.emission (states : List String) (n : Nat) (env : Env) : ThreeOpStmt → List Emission
  | .emit predVar => if env.bool predVar then [.of states n env.int] else []
  | _ => []

def ThreeOpStmt.isEmit : ThreeOpStmt → Bool
  | .emit _ => true
  | _ => false

def ThreeOpStmt.next (s : ThreeOpStmt) (n : Nat) : Nat := if s.isEmit then n+1 else n

def execStmts (states : List String) : List ThreeOpStmt → Nat → Env → Env × List Emission
  | [], _, env => (env,[])
  | s::ss, n, env =>
    let (env',es) := execStmts states ss (s.next n) (s.exec env)
    (env',s.emission states n env++es)

def emitStmts : List ThreeOpStmt → Nat
  | [] => 0
  | s::ss => emitStmts ss+(if s.isEmit then 1 else 0)
section
variable (env : Env) (x : String) (v : BitVec 32)
@[simp] theorem Env.setInt_int : (env.setInt x v).int=update env.int x v := rfl
@[simp] theorem Env.setInt_bool : (env.setInt x v).bool=env.bool := rfl
@[simp] theorem Env.setBool_int (b : Bool) : (env.setBool x b).int=env.int := rfl
@[simp] theorem Env.setBool_bool (b : Bool) : (env.setBool x b).bool=update env.bool x b := rfl
end

@[simp] theorem AugExpr.eval_const (σ : Store) (v : Nat) : (AugExpr.const v).eval σ=.ofNat 32 v := by
  simp [AugExpr.const,AugExpr.eval]

theorem AugExpr.eval_ofExpr (σ : Store) (e : Expr) : (AugExpr.ofExpr e).eval σ=e.eval σ := by
  induction e with
  | col x => rfl
  | val v => simp [AugExpr.ofExpr,Expr.eval]
  | comb op l r ihl ihr =>
    simp only [AugExpr.ofExpr,AugExpr.eval,Expr.eval,ihl,ihr]
    cases op <;> rfl
  | paren e ih => exact ih
open AugPred
theorem AugPred.eval_ofPredicate (p : Predicate) : (AugPred.ofPredicate p).eval env=p.eval env.int := by
  induction p with
  | and p q ihp ihq | or p q ihp ihq => simp [eval,Predicate.eval,ihp,ihq]
  | not p ih => simp [eval,Predicate.eval,ih]
  | paren p ih => exact ih
  | eq l r | gt l r | lt l r | ne l r => simp [eval,Predicate.eval,AugExpr.eval_ofExpr]
  | true | false => rfl

theorem AugPred.eval_and (p q : AugPred) : (p.and q).eval env=(p.eval env&&q.eval env) := by
  cases p <;> cases q <;> simp [and,isIdenticallyTrue,isIdenticallyFalse,eval]

theorem AugPred.eval_not (p : AugPred) : p.not.eval env = !p.eval env := by
  cases p <;> simp [not,isIdenticallyTrue,isIdenticallyFalse,eval]

theorem emitStmts_append (ss ts : List ThreeOpStmt) : emitStmts (ss++ts)=emitStmts ss+emitStmts ts := by
  induction ss with
  | nil => simp [emitStmts]
  | cons s ss ih =>
    simp only [List.cons_append,emitStmts,ih]
    omega

theorem execStmts_append (states : List String) (ss ts : List ThreeOpStmt) (n : Nat) (env : Env) :
    execStmts states (ss++ts) n env = ((execStmts states ts (n+emitStmts ss) (execStmts states ss n env).1).1,
        (execStmts states ss n env).2 ++ (execStmts states ts (n+emitStmts ss) (execStmts states ss n env).1).2) := by
  induction ss generalizing n env with
  | nil => simp [execStmts,emitStmts]
  | cons s ss ih =>
    have hn : s.next n+emitStmts ss=n+emitStmts (s::ss) := by
      simp only [ThreeOpStmt.next,emitStmts]
      split <;> omega
    simp [List.cons_append,execStmts,ih,hn,List.append_assoc]
end P4Benchmarks.Marple
