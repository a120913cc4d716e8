import Mathlib.Data.List.Basic
import P4Benchmarks.Marple.LinearCorrect
/-! # The shape of if-converted code -/
namespace P4Benchmarks.Marple
open List AugPred CodeBlock Nat ThreeOpCode
attribute [local simp] ThreeOpStmt.KeepsElse ThreeOpStmt.intVars AugPred.intVars
@[local simp] def AugPred.boolVars : AugPred → List String
  | .predId x => [x]
  | .predAnd p q | .predOr p q => p.boolVars++q.boolVars
  | .predNot p => p.boolVars
  | .predTrue | .predFalse | .predEq .. | .predNe .. | .predGt .. | .predLt .. => []

def ThreeOpStmt.boolVars : ThreeOpStmt → List String
  | .ternary _ predVar _ _ => [predVar]
  | .predAssign _ p => p.boolVars
  | .exprAssign _ _ => []
  | .emit predVar => [predVar]

@[local simp] def ThreeOpStmt.boolDef : ThreeOpStmt → Option String
  | .predAssign result _ => some result
  | _ => none

structure Generated (ids : List String) (lo : Nat) (s : ThreeOpStmt) : Prop where
  keepsElse : s.KeepsElse
  intVars : ∀ x ∈ s.intVars, x ∈ ids
  boolVars : ∀ x ∈ s.boolVars, ∃ k, x=predVarId k
  boolDef : ∀ x ∈ s.boolDef, ∃ k, lo<k ∧ x=predVarId k

theorem Generated.mono {ids ids' : List String} {lo lo' : Nat} {s : ThreeOpStmt}
    (h : Generated ids lo s) (hsub : ids ⊆ ids') (hle : lo'≤lo) : Generated ids' lo' s := by
  refine ⟨h.keepsElse,fun x hx => hsub (h.intVars x hx),h.boolVars,?_⟩
  intro x hx
  obtain ⟨k,hk,rfl⟩ := h.boolDef x hx
  exact ⟨k,by omega,rfl⟩

@[local simp] theorem getUsedVars_ofExpr (e : Expr) : (AugExpr.ofExpr e).getUsedVars=e.idents := by
  induction e with
  | col x | val v => rfl
  | comb op l r ihl ihr => simp [AugExpr.ofExpr,AugExpr.getUsedVars,Expr.idents,ihl,ihr]
  | paren e ih => exact ih

theorem vars_ofPredicate (p : Predicate) : (ofPredicate p).intVars=p.idents ∧
    (ofPredicate p).getUsedVars=p.idents ∧ (ofPredicate p).boolVars=[] := by
  induction p with
  | eq l r | gt l r | lt l r | ne l r => simp [ofPredicate,getUsedVars,Predicate.idents]
  | and p q ihp ihq | or p q ihp ihq => simp [ofPredicate,getUsedVars,Predicate.idents,ihp,ihq]
  | paren p ih | not p ih => exact ih
  | true | false => exact ⟨rfl,rfl,rfl⟩

theorem visitPrimitive_generated {v : IfConvertor} {o : Nat} (hid : v.outerPredId=predVarId o)
    (lo : Nat) (p : Primitive) : ∀ s ∈ (visitPrimitive v p).stmts, Generated p.idents lo s := by
  intro s hs
  cases p with
  | assign x e =>
    simp only [visitPrimitive,mem_singleton] at hs
    subst hs
    unfold makePrimitiveAssignmentStmt
    split_ifs
    · constructor <;> simp [ThreeOpStmt.boolVars,Primitive.idents]
    · constructor <;> simp [ThreeOpStmt.boolVars,AugExpr.getUsedVars,Primitive.idents]
    · constructor <;> simp [ThreeOpStmt.boolVars,AugExpr.getUsedVars,Primitive.idents,hid]
      intro y hy
      exact hy.symm
  | skip => simp [visitPrimitive,empty] at hs
  | emit =>
    simp only [visitPrimitive,mem_singleton] at hs
    subst hs
    constructor <;> simp [ThreeOpStmt.boolVars,hid]

theorem visitPrimitives_generated {v : IfConvertor} {o : Nat} (hid : v.outerPredId=predVarId o) (lo : Nat)
    (ps : List Primitive) : ∀ s ∈ (visitPrimitives v ps).stmts, Generated (ps.flatMap Primitive.idents) lo s := by
  induction ps with
  | nil => simp [visitPrimitives,empty]
  | cons p ps ih =>
    intro s hs
    simp only [visitPrimitives,orderedMerge,mem_append] at hs
    rcases hs with hs | hs
    · exact (visitPrimitive_generated hid lo p s hs).mono (by simp) (Nat.le_refl _)
    · exact (ih s hs).mono (by simp) (Nat.le_refl _)

def Generates (visit : IfConvertor → ThreeOpCode × IfConvertor) (ids : List String) : Prop :=
  ∀ v o, v.outerPredId=predVarId o → v.incr≤(visit v).2.incr ∧ (visit v).2.outerPredId=v.outerPredId ∧
      ∀ s ∈ (visit v).1.stmts, Generated ids v.incr s
variable {visit : IfConvertor → ThreeOpCode × IfConvertor}
theorem Generates.mono {ids ids' : List String}
    (h : Generates visit ids) (hsub : ids ⊆ ids') : Generates visit ids' := by
  intro v o hid
  obtain ⟨hle,hrestore,hgen⟩ := h v o hid
  exact ⟨hle,hrestore,fun s hs => (hgen s hs).mono hsub (Nat.le_refl _)⟩
variable {ids : List String}
theorem setupPred_generated (pred : AugPred) (v : IfConvertor) (hint : ∀ x ∈ pred.intVars, x ∈ ids)
    (hbool : ∀ x ∈ pred.boolVars, ∃ k, x=predVarId k) : ∀ s ∈ (setupPred pred v).1.stmts, Generated ids v.incr s := by
  intro s hs
  simp only [setupPred,mem_singleton] at hs
  subst hs
  refine ⟨trivial,hint,hbool,?_⟩
  intro x hx
  cases hx
  exact ⟨v.incr+1,lt_succ_self _,rfl⟩

theorem handleIfOrElse_generated (hvisit : Generates visit ids) (c o : Nat) (ifPred : Bool) (v : IfConvertor) :
    let out := handleIfOrElse visit (.predId (predVarId c)) (.predId (predVarId o)) ifPred v
    v.incr≤out.2.incr ∧ ∀ s ∈ out.1.stmts, Generated ids v.incr s := by
  let pred : AugPred := (predId (predVarId o)).and
    (if ifPred then .predId (predVarId c) else (predId (predVarId c)).not)
  have hvars : pred.intVars=[] ∧ ∀ x ∈ pred.boolVars, ∃ k, x=predVarId k := by
    cases ifPred <;> simp [pred,AugPred.and,AugPred.not,isIdenticallyTrue,isIdenticallyFalse]
  obtain ⟨hle,-,hbody⟩ := hvisit ⟨v.incr+1,pred,predVarId (v.incr+1)⟩ (v.incr+1) rfl
  refine ⟨le_of_succ_le hle,?_⟩
  intro s hs
  rcases mem_append.mp hs with hs | hs
  · exact setupPred_generated pred v (by simp [hvars.1]) hvars.2 s hs
  · exact (hbody s hs).mono (List.Subset.refl _) (le_succ _)

theorem visitIfConstruct_generated {p : Predicate} {visitIf : IfConvertor → ThreeOpCode × IfConvertor}
    (visitElse : Option (IfConvertor → ThreeOpCode × IfConvertor)) (hp : p.idents ⊆ ids) (hif : Generates visitIf ids)
    (helse : ∀ visit ∈ visitElse, Generates visit ids) : Generates (visitIfConstruct p visitIf visitElse) ids := by
  intro v o hid
  obtain ⟨incr,outerPred,outerPredId⟩ := v
  subst hid
  have hcond := setupPred_generated (.ofPredicate p) ⟨incr,outerPred,predVarId o⟩
    (fun x hx => hp (by rwa [(vars_ofPredicate p).1] at hx)) (by simp [vars_ofPredicate])
  let v₁ : IfConvertor := ⟨incr+1,outerPred,predVarId o⟩
  obtain ⟨hle₁,hthen⟩ := handleIfOrElse_generated hif (incr+1) o true v₁
  have hlow {lo : Nat} (hlo : incr+1≤lo) {s : ThreeOpStmt} (h : Generated ids lo s) : Generated ids incr s :=
    h.mono (List.Subset.refl _) (by omega)
  cases visitElse with
  | none =>
    refine ⟨le_of_succ_le hle₁,rfl,?_⟩
    intro s hs
    rcases mem_append.mp hs with hs | hs
    · exact hcond s hs
    · exact hlow (Nat.le_refl _) (hthen s hs)
  | some visit =>
    let v₂ := restorePredContext ⟨incr,outerPred,predVarId o⟩
      (handleIfOrElse visitIf (.predId (predVarId (incr+1))) (.predId (predVarId o)) true v₁).2
    have hle₂ : incr+1≤v₂.incr := hle₁
    obtain ⟨hle₃,hels⟩ := handleIfOrElse_generated (helse visit rfl) (incr+1) o false v₂
    refine ⟨le_of_succ_le (Nat.le_trans hle₂ hle₃),rfl,?_⟩
    intro s hs
    rcases mem_append.mp hs with hs | hs
    · rcases mem_append.mp hs with hs | hs
      · exact hcond s hs
      · exact hlow (Nat.le_refl _) (hthen s hs)
    · exact hlow hle₂ (hels s hs)

private theorem surround_generated (h : Generates visit ids) {pre post : List Primitive}
    (hpre : pre.flatMap Primitive.idents ⊆ ids) (hpost : post.flatMap Primitive.idents ⊆ ids) :
    Generates (fun v => (((visitPrimitives v pre).orderedMerge (visit v).1).orderedMerge
      (visitPrimitives (visit v).2 post),(visit v).2)) ids := by
  intro v o hid
  obtain ⟨hle,hrestore,hgen⟩ := h v o hid
  refine ⟨hle,hrestore,?_⟩
  intro s hs
  rcases mem_append.mp hs with hs | hs
  · rcases mem_append.mp hs with hs | hs
    · exact (visitPrimitives_generated hid v.incr pre s hs).mono hpre (Nat.le_refl _)
    · exact hgen s hs
  · exact (visitPrimitives_generated (hrestore.trans hid) v.incr post s hs).mono hpost
      (Nat.le_refl _)

theorem visitCodeBlock_generated (b : CodeBlock) : Generates (visitCodeBlock b) b.idents := by
  induction b with
  | plain ps =>
    intro v o hid
    exact ⟨Nat.le_refl _,rfl,visitPrimitives_generated hid v.incr ps⟩
  | ifThen pre p thn post ih =>
    have hthn : Generates (visitCodeBlock thn) (CodeBlock.ifThen pre p thn post).idents :=
      ih.mono (by grind [idents])
    have hif := visitIfConstruct_generated (p := p) none (by grind [idents]) hthn (by simp)
    exact surround_generated hif (by grind [idents]) (by grind [idents])
  | ifElse pre p thn els post ihthn ihels =>
    have hthn : Generates (visitCodeBlock thn) (CodeBlock.ifElse pre p thn els post).idents :=
      ihthn.mono (by grind [idents])
    have hels : Generates (visitCodeBlock els) (CodeBlock.ifElse pre p thn els post).idents :=
      ihels.mono (by grind [idents])
    have hif := visitIfConstruct_generated (p := p) (some (visitCodeBlock els)) (by grind [idents]) hthn (by
        intro visit hvisit
        cases hvisit
        exact hels)
    exact surround_generated hif (by grind [idents]) (by grind [idents])

theorem visitCodeBlock_outer_generated (f : AggFun) (incr : Nat) :
    ∀ s ∈ (visitCodeBlock f.body (.outer incr)).1.stmts, Generated f.body.idents (incr+1) s :=
  (visitCodeBlock_generated f.body (.outer incr) (incr+1) rfl).2.2

theorem visitAggFun_generated (f : AggFun) (fnVars : List String) (incr : Nat) :
    ∀ s ∈ (visitAggFun f fnVars incr).1.stmts, Generated f.body.idents incr s := by
  intro s hs
  rw [visitAggFun_stmts,mem_cons] at hs
  rcases hs with rfl | hs
  · exact setupPred_generated .predTrue ⟨incr,.predTrue,""⟩
      (by simp) (by simp) _ (mem_singleton.mpr rfl)
  · exact (visitCodeBlock_outer_generated f incr s hs).mono (List.Subset.refl _) (le_succ _)
end P4Benchmarks.Marple
