import Mathlib.Data.List.Induction
import P4Benchmarks.Marple.Linear
/-!
# Queries

The statements of a Marple program: each assigns the result of a filter, a map, a groupby or a zip
to a stream name.  Operands are stream names; `T` is the packet log.
-/
namespace P4Benchmarks.Marple
open List
inductive StreamQuery where
  | filter (stream : String) (p : Predicate)
  | map (stream : String) (columnList : List String) (exprList : List Expr)
  | groupby (stream : String) (columnList : List String) (aggFunc : String)
  | zip (stream stream' : String)
deriving DecidableEq

structure StreamStmt where
  stream : String
  query : StreamQuery
deriving DecidableEq

structure Prog where
  aggFuns : List AggFun
  stmts : List StreamStmt
deriving DecidableEq

inductive OperationType where
  | groupby | join | filter | project | pktlog
deriving DecidableEq

structure Operation where
  opcode : OperationType
  operands : List String
deriving DecidableEq

def pktLogStr : String := "T"

def StreamQuery.getOperation : StreamQuery → Operation
  | .filter stream _ => ⟨.filter,[stream]⟩
  | .map stream _ _ => ⟨.project,[stream]⟩
  | .groupby stream _ _ => ⟨.groupby,[stream]⟩
  | .zip stream stream' => ⟨.join,[stream,stream']⟩

def StreamQuery.operands (q : StreamQuery) : List String := q.getOperation.operands
namespace Prog
variable (prog : Prog)
def stateVars (aggFunc : String) : List String :=
  ((prog.aggFuns.find? fun f => f.name==aggFunc).map AggFun.states).getD []

def fieldVars (aggFunc : String) : List String :=
  ((prog.aggFuns.find? fun f => f.name==aggFunc).map AggFun.fields).getD []

/-- A table with one entry for each stream name, filled statement by statement: a later assignment
overwrites an earlier one. -/
def tabulate {α : Type} (entry : Nat → StreamStmt → α) : String → Option α :=
  prog.stmts.zipIdx.foldl (fun table s => Function.update table s.1.stream (some (entry s.2 s.1))) fun _ => none

def depTable : String → Option Operation := prog.tabulate fun _ s => s.query.getOperation
def symTree : String → Option StreamQuery := prog.tabulate fun _ s => s.query
def lastAssignedId : String := (prog.stmts.getLast?.map StreamStmt.stream).getD ""

def OperandsAssigned : Prop :=
  ∀ (i : Nat) (s : StreamStmt), prog.stmts[i]?=some s → ∀ operand ∈ s.query.operands,
    operand=pktLogStr ∨ ∃ (j : Nat) (t : StreamStmt), j < i ∧ prog.stmts[j]?=some t ∧ t.stream=operand

structure LastAssigned (x : String) (line : Nat) (s : StreamStmt) : Prop where
  at_line : prog.stmts[line]?=some s
  stream : s.stream=x
  last : ∀ (k : Nat) (t : StreamStmt), line<k → prog.stmts[k]?=some t → t.stream≠x
variable {prog}
theorem tabulate_eq_some_iff {α : Type} {entry : Nat → StreamStmt → α} {x : String} {e : α} :
    prog.tabulate entry x=some e ↔ ∃ line s, prog.LastAssigned x line s ∧ e=entry line s := by
  obtain ⟨aggFuns,stmts⟩ := prog
  induction stmts using List.reverseRecOn with
  | nil =>
    simp only [tabulate,zipIdx_nil,foldl_nil,reduceCtorEq,false_iff]
    rintro ⟨line,s,hlast,-⟩
    cases hlast.at_line
  | append_singleton stmts s ih =>
    have hstep : tabulate ⟨aggFuns,stmts++[s]⟩ entry =
        Function.update (tabulate ⟨aggFuns,stmts⟩ entry) s.stream (some (entry stmts.length s)) := by
      simp [tabulate,zipIdx_append]
    rw [hstep]
    by_cases hx : x=s.stream
    · subst hx
      rw [Function.update_self,Option.some.injEq]
      constructor
      · rintro rfl
        refine ⟨stmts.length,s,⟨by simp,rfl,fun k t hk ht => ?_⟩,rfl⟩
        have hlt := (List.getElem?_eq_some_iff.mp ht).1
        simp only [length_append,length_singleton] at hlt
        omega
      · rintro ⟨line,t,hlast,rfl⟩
        have hlt := (List.getElem?_eq_some_iff.mp hlast.at_line).1
        simp only [length_append,length_singleton] at hlt
        have hline : line=stmts.length := by
          by_contra hne
          exact hlast.last stmts.length s (by omega) (by simp) rfl
        subst hline
        have hts := hlast.at_line
        simp only [List.getElem?_concat_length,Option.some.injEq] at hts
        rw [hts]
    · rw [Function.update_of_ne hx,ih]
      refine exists_congr fun line => exists_congr fun t => and_congr_left fun _ => ?_
      constructor
      · intro hlast
        have hlt := (List.getElem?_eq_some_iff.mp hlast.at_line).1
        refine ⟨?_,hlast.stream,fun k u hk hu => ?_⟩
        · rw [List.getElem?_append_left hlt]
          exact hlast.at_line
        · rcases Nat.lt_or_ge k stmts.length with hk' | hk'
          · rw [List.getElem?_append_left hk'] at hu
            exact hlast.last k u hk hu
          · obtain rfl : s=u := by
              rw [List.getElem?_append_right hk'] at hu
              exact mem_singleton.mp (mem_of_getElem? hu) |>.symm
            exact fun h => hx h.symm
      · intro hlast
        have hlt : line < stmts.length := by
          by_contra hge
          have hts := hlast.at_line
          rw [List.getElem?_append_right (by omega)] at hts
          have heq := mem_singleton.mp (mem_of_getElem? hts)
          exact hx (by rw [← heq,hlast.stream])
        refine ⟨?_,hlast.stream,fun k u hk hu => ?_⟩
        · have hts := hlast.at_line
          rwa [List.getElem?_append_left hlt] at hts
        · have hk' := (List.getElem?_eq_some_iff.mp hu).1
          refine hlast.last k u hk ?_
          rw [List.getElem?_append_left hk']
          exact hu

theorem LastAssigned.unique {x : String} {line line' : Nat} {s s' : StreamStmt} (h : prog.LastAssigned x line s)
    (h' : prog.LastAssigned x line' s') : line=line' ∧ s=s' := by
  have hline : line=line' := by
    rcases Nat.lt_trichotomy line line' with hlt | heq | hgt
    · exact absurd h'.stream (h.last line' s' hlt h'.at_line)
    · exact heq
    · exact absurd h.stream (h'.last line s hgt h.at_line)
  subst hline
  exact ⟨rfl,Option.some.inj (h.at_line.symm.trans h'.at_line)⟩

theorem exists_lastAssigned {x : String} {j : Nat} {t : StreamStmt}
    (hj : prog.stmts[j]?=some t) (ht : t.stream=x) : ∃ line s, prog.LastAssigned x line s := by
  -- induction on the number of statements behind `j`
  induction hn : prog.stmts.length-j using Nat.strongRecOn generalizing j t with
  | ind n ih =>
    by_cases hlater : ∃ k u, j<k ∧ prog.stmts[k]?=some u ∧ u.stream=x
    · obtain ⟨k,u,hjk,hk,hu⟩ := hlater
      have hlt := (List.getElem?_eq_some_iff.mp hk).1
      exact ih (prog.stmts.length-k) (by omega) hk hu rfl
    · refine ⟨j,t,hj,ht,fun k u hk hu hx => hlater ⟨k,u,hk,hu,hx⟩⟩
end Prog
end P4Benchmarks.Marple
