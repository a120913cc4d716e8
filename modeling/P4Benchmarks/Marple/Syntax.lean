import Mathlib.Algebra.GroupWithZero.Nat
import Mathlib.Logic.Function.Basic
/-!
# Aggregation functions of the Marple query language

The part of `PerfQuery.g4` that describes fold functions, and what such a function does with one
packet.  Integers are 32 bits wide and wrap around.
-/
namespace P4Benchmarks.Marple
inductive ArithOp where
  | add | sub | mul | div
deriving DecidableEq
scoped instance neZero_two_pow : NeZero (2^31) := ⟨by decide⟩

inductive Value where
  | number (n : Fin (2^31))
  | infinity
deriving DecidableEq

inductive Expr where
  | col (id : String)
  | val (v : Value)
  | comb (op : ArithOp) (l r : Expr)
  | paren (e : Expr)
deriving DecidableEq

inductive Predicate where
  | eq (l r : Expr)
  | gt (l r : Expr)
  | lt (l r : Expr)
  | ne (l r : Expr)
  | and (p q : Predicate)
  | or (p q : Predicate)
  | paren (p : Predicate)
  | not (p : Predicate)
  | true
  | false
deriving DecidableEq

inductive Primitive where
  | assign (id : String) (e : Expr)
  | skip
  | emit
deriving DecidableEq

inductive CodeBlock where
  | plain (ps : List Primitive)
  | ifThen (pre : List Primitive) (p : Predicate) (thn : CodeBlock) (post : List Primitive)
  | ifElse (pre : List Primitive) (p : Predicate) (thn els : CodeBlock) (post : List Primitive)
deriving DecidableEq

/-- Induction in which a missing else branch is an empty one. -/
theorem CodeBlock.inductElse {P : CodeBlock → Prop} (plain : ∀ ps, P (.plain ps))
    (ifElse : ∀ pre p thn els post, P thn → P els → P (.ifElse pre p thn els post))
    (ifThen : ∀ pre p thn post, P (.ifElse pre p thn (.plain []) post) → P (.ifThen pre p thn post))
    (b : CodeBlock) : P b := by
  induction b with
  | plain ps => exact plain ps
  | ifThen pre p thn post ih => exact ifThen _ _ _ _ (ifElse _ _ _ _ _ ih (plain []))
  | ifElse pre p thn els post ihthn ihels => exact ifElse _ _ _ _ _ ihthn ihels

structure AggFun where
  name : String
  (states fields : List String)
  body : CodeBlock
deriving DecidableEq

def isUserIdent (x : String) : Bool := x.toList.head?.any Char.isAlpha

def Expr.idents : Expr → List String
  | .col id => [id]
  | .val _ => []
  | .comb _ l r => l.idents++r.idents
  | .paren e => e.idents

def Predicate.idents : Predicate → List String
  | .eq l r | .gt l r | .lt l r | .ne l r => l.idents++r.idents
  | .and p q | .or p q => p.idents++q.idents
  | .paren p | .not p => p.idents
  | .true | .false => []

def Primitive.idents : Primitive → List String
  | .assign id e => id::e.idents
  | .skip => []
  | .emit => []

def CodeBlock.idents : CodeBlock → List String
  | .plain ps => ps.flatMap Primitive.idents
  | .ifThen pre p thn post => pre.flatMap Primitive.idents++p.idents++thn.idents++post.flatMap Primitive.idents
  | .ifElse pre p thn els post =>
    pre.flatMap Primitive.idents++p.idents++thn.idents++els.idents ++ post.flatMap Primitive.idents

def AggFun.Lexical (f : AggFun) : Prop := ∀ x ∈ f.states++f.body.idents, isUserIdent x
instance (f : AggFun) : Decidable f.Lexical := inferInstanceAs (Decidable (∀ x ∈ _, _))

abbrev Store := String → BitVec 32

def ArithOp.eval : ArithOp → BitVec 32 → BitVec 32 → BitVec 32
  | .add, x, y => x+y
  | .sub, x, y => x-y
  | .mul, x, y => x*y
  | .div, x, y => x/y

/-- The compiler represents `infinity` by the largest `Integer`. -/
def Value.toNat : Value → Nat
  | .number n => n
  | .infinity => 2^31-1

def Expr.eval (σ : Store) : Expr → BitVec 32
  | .col id => σ id
  | .val v => .ofNat 32 v.toNat
  | .comb op l r => op.eval (l.eval σ) (r.eval σ)
  | .paren e => e.eval σ

def Predicate.eval (σ : Store) : Predicate → Bool
  | .eq l r => l.eval σ==r.eval σ
  | .gt l r => (r.eval σ).ult (l.eval σ)
  | .lt l r => (l.eval σ).ult (r.eval σ)
  | .ne l r => l.eval σ != r.eval σ
  | .and p q => p.eval σ&&q.eval σ
  | .or p q => p.eval σ || q.eval σ
  | .paren p => p.eval σ
  | .not p => !p.eval σ
  | .true => Bool.true
  | .false => Bool.false

/-- One executed `emit()`: its position among the emits of the text and the values that it copies
to the packet fields named like the states. -/
structure Emission where
  site : Nat
  values : List (String × BitVec 32)
deriving DecidableEq

def Emission.of (states : List String) (n : Nat) (σ : Store) : Emission := ⟨n,states.map fun x => (x,σ x)⟩

def emitCount : List Primitive → Nat
  | [] => 0
  | .emit::ps => emitCount ps+1
  | .assign _ _::ps => emitCount ps
  | .skip::ps => emitCount ps

def CodeBlock.emits : CodeBlock → Nat
  | .plain ps => emitCount ps
  | .ifThen pre _ thn post => emitCount pre+thn.emits+emitCount post
  | .ifElse pre _ thn els post => emitCount pre+thn.emits+els.emits+emitCount post

def runPrimitives (states : List String) : List Primitive → Nat → Store → Store × List Emission
  | [], _, σ => (σ,[])
  | .assign id e::ps, n, σ => runPrimitives states ps n (Function.update σ id (e.eval σ))
  | .skip::ps, n, σ => runPrimitives states ps n σ
  | .emit::ps, n, σ =>
    let (σ',es) := runPrimitives states ps (n+1) σ
    (σ',.of states n σ::es)

def CodeBlock.run (states : List String) : CodeBlock → Nat → Store → Store × List Emission
  | .plain ps, n, σ => runPrimitives states ps n σ
  | .ifThen pre p thn post, n, σ =>
    let (σ₁,es₁) := runPrimitives states pre n σ
    let n₁ := n+emitCount pre
    let (σ₂,es₂) := if p.eval σ₁ then thn.run states n₁ σ₁ else (σ₁,[])
    let (σ₃,es₃) := runPrimitives states post (n₁+thn.emits) σ₂
    (σ₃,es₁++es₂++es₃)
  | .ifElse pre p thn els post, n, σ =>
    let (σ₁,es₁) := runPrimitives states pre n σ
    let n₁ := n+emitCount pre
    let (σ₂,es₂) := if p.eval σ₁ then thn.run states n₁ σ₁ else els.run states (n₁+thn.emits) σ₁
    let (σ₃,es₃) := runPrimitives states post (n₁+thn.emits+els.emits) σ₂
    (σ₃,es₁++es₂++es₃)

def AggFun.run (f : AggFun) (σ : Store) : Store × List Emission := f.body.run f.states 0 σ
end P4Benchmarks.Marple
