import P4Benchmarks.Marple.LinearCorrect
/-!
# Affine decomposition

`getAffineCoefficients` fails on a sum of a constant and an expression without the variable, since
the constant has no children to look at.
-/
namespace P4Benchmarks.Marple
open Bool AugExpr
attribute [local simp] getAffineCoefficients
namespace AugExpr

@[local simp] def isConstantSum (var : String) : AugExpr → Bool
  | .comb .add l r => (l.isValueExpr&&!r.usesIdent var) || (r.isValueExpr&&!l.usesIdent var)
  | _ => false
variable {var : String} {e : AugExpr}
theorem isLinearExpr_of_isValueExpr (h : e.isValueExpr) : e.isLinearExpr var := by simp [isLinearExpr,h]

theorem usesIdent_of_isValueExpr (h : e.isValueExpr) : e.usesIdent var=false := by
  cases e with
  | val v w => simp [usesIdent,getUsedVars]
  | id x | comb op l r => simp [isValueExpr] at h

theorem usesIdent_of_isLinearExpr (h : e.isLinearExpr var) (hval : e.isValueExpr=false) : e.usesIdent var := by
  cases e with
  | id x =>
    obtain rfl : x=var := by simpa [isLinearExpr,isSingleIdentExpr,isValueExpr] using h
    simp [usesIdent,getUsedVars]
  | val v w => simp [isValueExpr] at hval
  | comb op l r =>
    cases op with
    | mul =>
      have hsides : (l.isSingleIdentExpr var&&!r.usesIdent var ||
          r.isSingleIdentExpr var&&!l.usesIdent var) := h
      simp only [or_eq_true,and_eq_true,isSingleIdentExpr_iff] at hsides
      obtain ⟨rfl,-⟩ | ⟨rfl,-⟩ := hsides <;> simp [usesIdent,getUsedVars]
    | add | sub | div | rshift => simp [isLinearExpr,isSingleIdentExpr,isValueExpr] at h

theorem getLinearCoefficient_isOk (h : e.isLinearExpr var) :
    (∃ a, e.getLinearCoefficient var=.ok a) ↔ e.isValueExpr=false := by
  unfold getLinearCoefficient
  rw [h]
  cases e with
  | id x =>
    have hx : (AugExpr.id x).isSingleIdentExpr var := by simpa [isLinearExpr,isValueExpr] using h
    simp [hx,isValueExpr]
  | val v w | comb op l r => simp [isSingleIdentExpr,isValueExpr]

theorem getAffineCoefficients_isOk (var : String) (e : AugExpr) :
    (∃ r, e.getAffineCoefficients var=.ok r) ↔ e.isConstantSum var=false := by
  -- only a sum with a linear summand asks for a coefficient
  have hmap (x : Except JavaError AugExpr) (b : AugExpr) : (∃ r, x.map (fun a => some (a,b))=.ok r) ↔ ∃ a, x=.ok a := by
    cases x <;> simp [Except.map]
  cases e with
  | id x => cases hx : (AugExpr.id x).isSingleIdentExpr var <;>
      simp [hx,isValueExpr]
  | val v w => simp [isSingleIdentExpr,isValueExpr]
  | comb op l r =>
    cases op with
    | sub | mul | div | rshift => simp [isSingleIdentExpr,isValueExpr]
    | add =>
      have hunfold : (AugExpr.comb .add l r).getAffineCoefficients var = if l.isLinearExpr var&&!r.usesIdent var then
            (l.getLinearCoefficient var).map fun a => some (a,r)
          else if r.isLinearExpr var&&!l.usesIdent var then
            (r.getLinearCoefficient var).map fun a => some (a,l)
          else .ok none := rfl
      rw [hunfold,isConstantSum]
      split_ifs with hl hr
      · simp only [and_eq_true,not_eq_true'] at hl
        rw [hmap,getLinearCoefficient_isOk hl.1,hl.2]
        cases hlv : l.isValueExpr with
        | true => simp
        | false => simp [usesIdent_of_isLinearExpr hl.1 hlv]
      · simp only [and_eq_true,not_eq_true'] at hr
        rw [hmap,getLinearCoefficient_isOk hr.1,hr.2]
        cases hlv : l.isValueExpr with
        | true =>
          -- a constant on the left is linear, so the right one mentions the variable
          have hru : r.usesIdent var := by simpa [isLinearExpr_of_isValueExpr hlv] using hl
          have hrv : r.isValueExpr=false := by
            by_contra hrv
            rw [usesIdent_of_isValueExpr (by simpa using hrv)] at hru
            cases hru
          simp [hru,hrv]
        | false => simp
      · have hlc : (l.isValueExpr&&!r.usesIdent var)=false := by
          cases hlv : l.isValueExpr with
          | true => simpa [isLinearExpr_of_isValueExpr hlv] using hl
          | false => rfl
        have hrc : (r.isValueExpr&&!l.usesIdent var)=false := by
          cases hrv : r.isValueExpr with
          | true => simpa [isLinearExpr_of_isValueExpr hrv] using hr
          | false => rfl
        simp [hlc,hrc]
end AugExpr

/-- The decomposition returns, and its coefficients avoid the variable and give the value of the
expression, exactly if the expression is not a sum of a constant and an expression without the
variable. -/
theorem getAffineCoefficients_sound_and_total_iff (e : Expr) (var : String) :
    ((∃ r, (ofExpr e).getAffineCoefficients var=.ok r) ∧ ∀ a b, (ofExpr e).getAffineCoefficients var=.ok (some (a,b)) →
        a.usesIdent var=false ∧ b.usesIdent var=false ∧ ∀ σ : Store, e.eval σ=a.eval σ*σ var+b.eval σ) ↔
      (ofExpr e).isConstantSum var=false := by
  rw [AugExpr.getAffineCoefficients_isOk,and_iff_left_iff_imp]
  intro _ a b hab
  have haff := getAffineCoefficients_spec hab
  refine ⟨by simpa [AugExpr.usesIdent] using haff.avoids_a,by simpa [AugExpr.usesIdent] using haff.avoids_b,fun σ => ?_⟩
  rw [← eval_ofExpr,haff.eval σ]

theorem getAffineCoefficients_constant_sum :
    (ofExpr (.comb .add (.val (.number 1)) (.col "y"))).getAffineCoefficients "x" = .error .nullPointer := by
  rfl
end P4Benchmarks.Marple
