import Mathlib.Data.List.Forall2
import P4Benchmarks.Marple.GeneratedCode
import P4Benchmarks.Marple.LeafHistory
/-!
# Soundness of packet histories

Two runs are compared leaf by leaf.  If they part at a branch, the predicate of the branch has a
history above `h`, and so has everything assigned inside.
-/
namespace P4Benchmarks.Marple
open List Function Option AugPred CodeBlock Primitive AggFun AugExpr
def Primitive.target : Primitive → Option String
  | .assign x _ => some x
  | .skip => none
  | .emit => none

def CodeBlock.targets : CodeBlock → List String
  | .plain ps => ps.filterMap target
  | .ifThen pre _ thn post => pre.filterMap target++thn.targets++post.filterMap target
  | .ifElse pre _ thn els post => pre.filterMap target++thn.targets++els.targets ++ post.filterMap target

def Primitive.effect (σ : Store) : Primitive → Store
  | .assign x e => update σ x (e.eval σ)
  | .skip => σ
  | .emit => σ

def primitivesEffect (ps : List Primitive) (σ : Store) : Store := ps.foldl Primitive.effect σ

def CodeBlock.effect : CodeBlock → Store → Store
  | .plain ps, σ => primitivesEffect ps σ
  | .ifThen pre p thn post, σ =>
    let σ := primitivesEffect pre σ
    primitivesEffect post (if p.eval σ then thn.effect σ else σ)
  | .ifElse pre p thn els post, σ =>
    let σ := primitivesEffect pre σ
    primitivesEffect post (if p.eval σ then thn.effect σ else els.effect σ)
variable (states : List String)
theorem runPrimitives_fst (ps : List Primitive) (n : Nat) (σ : Store) :
    (runPrimitives states ps n σ).1=primitivesEffect ps σ := by
  induction ps generalizing n σ with
  | nil => rfl
  | cons p ps ih =>
    cases p with
    | assign x e => exact ih n _
    | skip => exact ih n σ
    | emit => exact ih (n+1) σ

theorem CodeBlock.run_fst (b : CodeBlock) (n : Nat) (σ : Store) : (b.run states n σ).1=b.effect σ := by
  induction b generalizing n σ with
  | plain ps => exact runPrimitives_fst states ps n σ
  | ifThen pre p thn post ih =>
    simp only [run,effect,runPrimitives_fst]
    split <;> simp only [ih]
  | ifElse pre p thn els post ihthn ihels =>
    simp only [run,effect,runPrimitives_fst]
    split <;> simp only [ihthn,ihels]
variable {x : String} {ps : List Primitive}
theorem primitivesEffect_of_not_target (hx : x ∉ ps.filterMap target) (σ : Store) : primitivesEffect ps σ x=σ x := by
  induction ps generalizing σ with
  | nil => rfl
  | cons p ps ih =>
    cases p with
    | assign y e =>
      simp only [target,filterMap_cons,mem_cons,not_or] at hx
      exact (ih hx.2 _).trans (update_of_ne hx.1 _ _)
    | skip | emit => exact ih hx σ

theorem CodeBlock.effect_of_not_target {b : CodeBlock} (hx : x ∉ b.targets) (σ : Store) : b.effect σ x=σ x := by
  induction b using inductElse generalizing σ with
  | plain ps => exact primitivesEffect_of_not_target hx σ
  | ifThen pre p thn post ih => exact ih (by simpa [targets] using hx) σ
  | ifElse pre p thn els post ihthn ihels =>
    simp only [targets,mem_append,not_or] at hx
    simp only [effect]
    rw [primitivesEffect_of_not_target hx.2]
    split
    · rw [ihthn hx.1.1.2,primitivesEffect_of_not_target hx.1.1.1]
    · rw [ihels hx.1.2,primitivesEffect_of_not_target hx.1.1.1]

def Follows (l : Leaf) : CodeBlock → Nat → Store → Prop
  | .plain _, _, _ => True
  | .ifThen pre p thn _, d, σ =>
    let σ := primitivesEffect pre σ
    l d=p.eval σ ∧ (l d → Follows l thn (d+1) σ)
  | .ifElse pre p thn els _, d, σ =>
    let σ := primitivesEffect pre σ
    l d=p.eval σ ∧ (l d → Follows l thn (d+1) σ) ∧ (l d=false → Follows l els (d+1) σ)

theorem exists_follows (b : CodeBlock) (d : Nat) (σ : Store) (l₀ : Leaf) :
    ∃ l, (∀ i<d, l i=l₀ i) ∧ Follows l b d σ := by
  induction b using inductElse generalizing d σ l₀ with
  | plain ps => exact ⟨l₀,fun _ _ => rfl,trivial⟩
  | ifThen pre p thn post ih =>
    obtain ⟨l,habove,hd,hthn,-⟩ := ih d σ l₀
    exact ⟨l,habove,hd,hthn⟩
  | ifElse pre p thn els post ihthn ihels =>
    have hside : ∀ body : CodeBlock, (∃ l, (∀ i<d+1, l i = update l₀ d (p.eval (primitivesEffect pre σ)) i) ∧
          Follows l body (d+1) (primitivesEffect pre σ)) →
        ∃ l, (∀ i<d, l i=l₀ i) ∧ l d=p.eval (primitivesEffect pre σ) ∧
          Follows l body (d+1) (primitivesEffect pre σ) := by
      rintro body ⟨l,habove,hl⟩
      refine ⟨l,fun i hi => ?_,?_,hl⟩
      · rw [habove i (by omega),update_of_ne (by omega)]
      · rw [habove d (by omega),update_self]
    simp only [Follows]
    cases hp : p.eval (primitivesEffect pre σ) with
    | true =>
      obtain ⟨l,habove,hd,hl⟩ := hside thn (ihthn _ _ _)
      exact ⟨l,habove,hd.trans hp,fun _ => hl,fun hfalse => by simp [hd,hp] at hfalse⟩
    | false =>
      obtain ⟨l,habove,hd,hl⟩ := hside els (ihels _ _ _)
      exact ⟨l,habove,hd.trans hp,fun htrue => by simp [hd,hp] at htrue,fun _ => hl⟩

theorem AugPred.and_ne_false {p q : AugPred} (hp : p≠.predFalse) (hq : q≠.predFalse) :
    p.and q≠.predFalse ∧ p.getUsedVars ⊆ (p.and q).getUsedVars ∧ q.getUsedVars ⊆ (p.and q).getUsedVars := by
  unfold AugPred.and
  split_ifs with hptrue hqtrue hfalse
  · refine ⟨hq,?_,List.Subset.refl _⟩
    cases p <;> simp_all [isIdenticallyTrue,getUsedVars]
  · refine ⟨hp,List.Subset.refl _,?_⟩
    cases q <;> simp_all [isIdenticallyTrue,getUsedVars]
  · cases p <;> cases q <;> simp_all [isIdenticallyFalse]
  · exact ⟨by simp,by simp [getUsedVars],by simp [getUsedVars]⟩

theorem AugPred.getUsedVars_not (p : AugPred) : p.not.getUsedVars=p.getUsedVars := by cases p <;> rfl
variable {p : Predicate}
theorem branchPred_ne_false {σ : Store} {side : Bool} (h : p.eval σ=side) :
    (if side then ofPredicate p else (ofPredicate p).not)≠.predFalse := by
  have heval := eval_ofPredicate ⟨σ,fun _ => false⟩ p
  intro hfalse
  cases side with
  | true =>
    rw [if_pos rfl] at hfalse
    rw [hfalse,h] at heval
    cases heval
  | false =>
    have hnot := eval_not ⟨σ,fun _ => false⟩ (ofPredicate p)
    rw [if_neg (by simp)] at hfalse
    rw [hfalse,heval,h] at hnot
    cases hnot
variable {σ₁ σ₂ : Store}
theorem exists_ne_of_eval_ne (h : p.eval σ₁≠p.eval σ₂) : ∃ y ∈ (ofPredicate p).getUsedVars, σ₁ y≠σ₂ y := by
  by_contra hall
  push Not at hall
  apply h
  have heq : (ofPredicate p).eval ⟨σ₁,fun _ => false⟩ = (ofPredicate p).eval ⟨σ₂,fun _ => false⟩ :=
    eval_congr _ rfl fun x hx => hall x (intVars_subset _ hx)
  rwa [eval_ofPredicate,eval_ofPredicate] at heq
section TwoRuns
variable {f : AggFun} {prevIterHist : VarMap Int} {h : Int}
def Raised (h : Int) (m : LeafHist) (σ : Store) (m' : LeafHist) (σ' : Store) : Prop :=
  ∀ x, m' x=m x ∧ σ' x=σ x ∨ ∃ v, m' x=some v ∧ h<v

theorem Raised.refl (m : LeafHist) (σ : Store) : Raised h m σ m σ := fun _ => .inl ⟨rfl,rfl⟩

theorem Raised.trans {m₁ m₂ m₃ : LeafHist} {σ₁ σ₂ σ₃ : Store} (h₁ : Raised h m₁ σ₁ m₂ σ₂)
    (h₂ : Raised h m₂ σ₂ m₃ σ₃) : Raised h m₁ σ₁ m₃ σ₃ := by
  intro x
  rcases h₂ x with ⟨hm,hσ⟩ | hraised
  · rcases h₁ x with ⟨hm',hσ'⟩ | ⟨v,hv,hlt⟩
    · exact .inl ⟨hm.trans hm',hσ.trans hσ'⟩
    · exact .inr ⟨v,hm.trans hv,hlt⟩
  · exact .inr hraised

theorem Raised.lt_leafHist {m m' : LeafHist} {σ σ' : Store} (hr : Raised h m σ m' σ') {y : String}
    (hy : h<leafHist f prevIterHist m y) : h<leafHist f prevIterHist m' y := by
  unfold leafHist at *
  rcases hr y with ⟨hm,-⟩ | ⟨v,hv,hlt⟩
  · rwa [hm]
  · rwa [hv]

theorem leafPrimitives_raised {pc : Int} (hpc : h<pc) (ps : List Primitive) (m : LeafHist) (σ : Store) :
    Raised h m σ (leafPrimitives f prevIterHist pc m ps) (primitivesEffect ps σ) := by
  induction ps generalizing m σ with
  | nil => exact .refl m σ
  | cons p ps ih =>
    refine Raised.trans ?_ (ih _ _)
    cases p with
    | assign x e =>
      intro y
      by_cases hy : y=x
      · subst hy
        refine .inr ⟨_,update_self ..,?_⟩
        exact Int.lt_of_lt_of_le hpc (Int.le_max_right _ _)
      · exact .inl ⟨update_of_ne hy _ _,update_of_ne hy _ _⟩
    | skip | emit => exact .refl m σ

def HighContext (f : AggFun) (prevIterHist : VarMap Int) (h : Int) (m : LeafHist) (outer : AugPred) : Prop :=
  outer≠.predFalse ∧ ∃ y ∈ outer.getUsedVars, h<leafHist f prevIterHist m y
variable {m : LeafHist} {outer : AugPred}
theorem HighContext.lt_leafPred (hc : HighContext f prevIterHist h m outer) : h<leafPred f prevIterHist m outer := by
  obtain ⟨-,y,hy,hlt⟩ := hc
  exact Int.lt_of_lt_of_le hlt (leafHist_le_leafMax m 0 hy)

theorem HighContext.branch {m m' : LeafHist} {σ σ' : Store} (hc : HighContext f prevIterHist h m outer)
    (hr : Raised h m σ m' σ') {q : AugPred} (hq : q≠.predFalse) : HighContext f prevIterHist h m' (outer.and q) := by
  obtain ⟨hne,y,hy,hlt⟩ := hc
  obtain ⟨hand,hsub,-⟩ := and_ne_false hne hq
  exact ⟨hand,y,hsub hy,hr.lt_leafHist hlt⟩

theorem leafBlock_raised (b : CodeBlock) {l : Leaf} {pc : Int} {d : Nat} {σ : Store} (hfollows : Follows l b d σ)
    (hpc : h<pc) (hc : HighContext f prevIterHist h m outer) :
    Raised h m σ (leafBlock f prevIterHist l b outer pc d m) (b.effect σ) := by
  induction b using inductElse generalizing outer pc d m σ with
  | plain ps => exact leafPrimitives_raised hpc ps m σ
  | ifThen pre p thn post ih => exact ih ⟨hfollows.1,hfollows.2,fun _ => trivial⟩ hpc hc
  | ifElse pre p thn els post ihthn ihels =>
    obtain ⟨hd,hthn,hels⟩ := hfollows
    have hpre : Raised h m σ (leafPrimitives f prevIterHist pc m pre) (primitivesEffect pre σ) :=
      leafPrimitives_raised hpc pre m σ
    refine hpre.trans (Raised.trans ?_ (leafPrimitives_raised hpc post _ _))
    have hbranch := hc.branch hpre (branchPred_ne_false (Eq.refl (p.eval (primitivesEffect pre σ))))
    cases hp : p.eval (primitivesEffect pre σ) with
    | true =>
      rw [hp] at hd hbranch
      rw [hd,if_pos rfl,if_pos rfl]
      exact ihthn (hthn hd) hbranch.lt_leafPred hbranch
    | false =>
      rw [hp] at hd hbranch
      rw [hd,if_neg (by simp),if_neg (by simp)]
      exact ihels (hels hd) hbranch.lt_leafPred hbranch

def Low (f : AggFun) (prevIterHist : VarMap Int) (h : Int) (m₁ m₂ : LeafHist) (σ₁ σ₂ : Store) : Prop :=
  ∀ x, (x ∈ f.states ∨ x ∈ f.fields ∨ m₁.assigned x ∧ m₂.assigned x) →
    leafHist f prevIterHist m₁ x≤h → leafHist f prevIterHist m₂ x≤h → σ₁ x=σ₂ x
section
variable {m₁ m₂ : LeafHist} {σ₁ σ₂ : Store} (hlow : Low f prevIterHist h m₁ m₂ σ₁ σ₂)
include hlow
theorem Low.eval_eq {e : Expr} (hr₁ : Readable f m₁.assigned (ofExpr e).getUsedVars)
    (hr₂ : Readable f m₂.assigned (ofExpr e).getUsedVars)
    (h₁ : leafMax f prevIterHist m₁ 0 (ofExpr e).getUsedVars≤h)
    (h₂ : leafMax f prevIterHist m₂ 0 (ofExpr e).getUsedVars≤h) : e.eval σ₁=e.eval σ₂ := by
  rw [← eval_ofExpr,← eval_ofExpr]
  apply AugExpr.eval_congr
  intro x hx
  have hknown : x ∈ f.states ∨ x ∈ f.fields ∨ m₁.assigned x ∧ m₂.assigned x := by
    rcases hr₁ x hx with hs | hs | ha₁
    · exact .inl hs
    · exact .inr (.inl hs)
    · rcases hr₂ x hx with hs | hs | ha₂
      · exact .inl hs
      · exact .inr (.inl hs)
      · exact .inr (.inr ⟨ha₁,ha₂⟩)
  exact hlow x hknown (Int.le_trans (leafHist_le_leafMax m₁ 0 hx) h₁) (Int.le_trans (leafHist_le_leafMax m₂ 0 hx) h₂)

theorem Low.primitives {pc : Int} (hd₁ : PrimitivesDefined f m₁.assigned ps)
    (hd₂ : PrimitivesDefined f m₂.assigned ps) :
    Low f prevIterHist h (leafPrimitives f prevIterHist pc m₁ ps) (leafPrimitives f prevIterHist pc m₂ ps)
    (primitivesEffect ps σ₁) (primitivesEffect ps σ₂) := by
  induction ps generalizing m₁ m₂ σ₁ σ₂ with
  | nil => exact hlow
  | cons p ps ih =>
    cases p with
    | assign x e =>
      have hassigned (m : LeafHist) : (leafPrimitive f prevIterHist pc m (.assign x e)).assigned =
          update m.assigned x true :=
        assigned_leafPrimitive pc m (.assign x e)
      have hstep : Low f prevIterHist h (leafPrimitive f prevIterHist pc m₁ (.assign x e))
          (leafPrimitive f prevIterHist pc m₂ (.assign x e)) (Primitive.effect σ₁ (.assign x e))
          (Primitive.effect σ₂ (.assign x e)) := by
        intro y hknown h₁ h₂
        by_cases hy : y=x
        · subst hy
          -- the new history bounds those of the variables in the expression
          have hnew (m : LeafHist) (hm : leafHist f prevIterHist
              (leafPrimitive f prevIterHist pc m (.assign y e)) y≤h) :
              leafMax f prevIterHist m 0 (ofExpr e).getUsedVars≤h := by
            simp only [leafHist,leafPrimitive,update_self,getD_some] at hm
            exact Int.le_trans (Int.le_max_left _ _) hm
          simp only [Primitive.effect,update_self]
          exact hlow.eval_eq hd₁.1 hd₂.1 (hnew m₁ h₁) (hnew m₂ h₂)
        · rw [hassigned,hassigned,update_of_ne hy,update_of_ne hy] at hknown
          simp only [leafHist,leafPrimitive,update_of_ne hy] at h₁ h₂
          simp only [Primitive.effect,update_of_ne hy]
          exact hlow y hknown h₁ h₂
      refine ih hstep ?_ ?_
      · rw [hassigned]
        exact hd₁.2
      · rw [hassigned]
        exact hd₂.2
    | skip | emit => exact ih hlow hd₁ hd₂
end

theorem Low.of_raised {m m₁ m₂ : LeafHist} {σ₁ σ₂ σ₁' σ₂' : Store} (hlow : Low f prevIterHist h m m σ₁ σ₂)
    (hr₁ : Raised h m σ₁ m₁ σ₁') (hr₂ : Raised h m σ₂ m₂ σ₂') : Low f prevIterHist h m₁ m₂ σ₁' σ₂' := by
  intro x hknown h₁ h₂
  unfold leafHist at h₁ h₂
  rcases hr₁ x with ⟨hm₁,hσ₁⟩ | ⟨v,hv,hlt⟩
  · rcases hr₂ x with ⟨hm₂,hσ₂⟩ | ⟨v,hv,hlt⟩
    · rw [hm₁] at h₁
      rw [hσ₁,hσ₂]
      apply hlow x _ h₁ h₁
      rcases hknown with hs | hs | ⟨ha,-⟩
      · exact .inl hs
      · exact .inr (.inl hs)
      · rw [LeafHist.assigned,hm₁] at ha
        exact .inr (.inr ⟨ha,ha⟩)
    · rw [hv,getD_some] at h₂
      omega
  · rw [hv,getD_some] at h₁
    omega

def PreservesLow (f : AggFun) (prevIterHist : VarMap Int) (h : Int) (b : CodeBlock) : Prop :=
  ∀ {outer : AugPred} {pc : Int} {d : Nat} {m : LeafHist} {σ₁ σ₂ : Store} {l₁ l₂ : Leaf},
    Follows l₁ b d σ₁ → Follows l₂ b d σ₂ → outer≠.predFalse →
    BlockDefined f l₁ b outer d m.assigned → BlockDefined f l₂ b outer d m.assigned →
    Low f prevIterHist h m m σ₁ σ₂ →
    Low f prevIterHist h (leafBlock f prevIterHist l₁ b outer pc d m)
      (leafBlock f prevIterHist l₂ b outer pc d m) (b.effect σ₁) (b.effect σ₂)

theorem Low.highContext (hlow : Low f prevIterHist h m m σ₁ σ₂) (houter : outer≠.predFalse)
    (hread : Readable f m.assigned (outer.and (.ofPredicate p)).getUsedVars) (hne : p.eval σ₁≠p.eval σ₂) :
    HighContext f prevIterHist h m (outer.and (.ofPredicate p)) ∧
    HighContext f prevIterHist h m (outer.and (ofPredicate p).not) := by
  have hboth : (∃ σ, p.eval σ) ∧ ∃ σ, p.eval σ=false := by
    cases h₁ : p.eval σ₁ <;> cases h₂ : p.eval σ₂
    · exact absurd (h₁.trans h₂.symm) hne
    · exact ⟨⟨σ₂,h₂⟩,σ₁,h₁⟩
    · exact ⟨⟨σ₁,h₁⟩,σ₂,h₂⟩
    · exact absurd (h₁.trans h₂.symm) hne
  obtain ⟨⟨σ,htrue⟩,τ,hfalse⟩ := hboth
  obtain ⟨hand,-,hsub⟩ := and_ne_false houter (branchPred_ne_false htrue)
  obtain ⟨hand',-,hsub'⟩ := and_ne_false houter (branchPred_ne_false hfalse)
  obtain ⟨y,hy,hyne⟩ := exists_ne_of_eval_ne hne
  have hhigh : h<leafHist f prevIterHist m y := by
    by_contra hle
    have hle' : leafHist f prevIterHist m y≤h := by omega
    refine hyne (hlow y ?_ hle' hle')
    rcases hread y (hsub hy) with hs | hs | ha
    · exact .inl hs
    · exact .inr (.inl hs)
    · exact .inr (.inr ⟨ha,ha⟩)
  refine ⟨⟨hand,y,hsub hy,hhigh⟩,hand',y,hsub' ?_,hhigh⟩
  rw [if_neg (by simp),getUsedVars_not]
  exact hy

theorem preservesLow_ifElse {pre post : List Primitive} {thn els : CodeBlock} (hthn : PreservesLow f prevIterHist h thn)
    (hels : PreservesLow f prevIterHist h els) : PreservesLow f prevIterHist h (.ifElse pre p thn els post) := by
  intro outer pc d m σ₁ σ₂ l₁ l₂ hf₁ hf₂ houter hd₁ hd₂ hlow
  obtain ⟨hl₁,hthn₁,hels₁⟩ := hf₁
  obtain ⟨hl₂,hthn₂,hels₂⟩ := hf₂
  obtain ⟨hpre₁,hread,hdt₁,hde₁,hpost₁⟩ := hd₁
  obtain ⟨hpre₂,-,hdt₂,hde₂,hpost₂⟩ := hd₂
  let m' := leafPrimitives f prevIterHist pc m pre
  let τ₁ := primitivesEffect pre σ₁
  let τ₂ := primitivesEffect pre σ₂
  have hmarks : m'.assigned=assignedPrimitives m.assigned pre := assigned_leafPrimitives pc m pre
  rw [← hmarks] at hread hdt₁ hde₁ hdt₂ hde₂ hpost₁ hpost₂
  have hlow' : Low f prevIterHist h m' m' τ₁ τ₂ := hlow.primitives hpre₁ hpre₂
  -- the histories after the branch that the leaf takes
  let mid (l : Leaf) : LeafHist :=
    if l d then leafBlock f prevIterHist l thn (outer.and (.ofPredicate p))
      (leafPred f prevIterHist m' (outer.and (.ofPredicate p))) (d+1) m'
    else leafBlock f prevIterHist l els (outer.and (ofPredicate p).not)
      (leafPred f prevIterHist m' (outer.and (ofPredicate p).not)) (d+1) m'
  have hassigned (l : Leaf) : (mid l).assigned = if l d then assignedBlock l thn (d+1) m'.assigned
      else assignedBlock l els (d+1) m'.assigned := by
    by_cases hl : l d
    · simp [mid,if_pos hl,assigned_leafBlock]
    · simp [mid,if_neg hl,assigned_leafBlock]
  have hmid : Low f prevIterHist h (mid l₁) (mid l₂) (if p.eval τ₁ then thn.effect τ₁ else els.effect τ₁)
      (if p.eval τ₂ then thn.effect τ₂ else els.effect τ₂) := by
    cases hp₁ : p.eval τ₁ <;> cases hp₂ : p.eval τ₂ <;> rw [hp₁] at hl₁ <;> rw [hp₂] at hl₂ <;>
      simp [mid,hl₁,hl₂,Bool.false_eq_true]
    · exact hels (hels₁ hl₁) (hels₂ hl₂)
        (and_ne_false houter (branchPred_ne_false hp₁)).1 (hde₁ hl₁) (hde₂ hl₂) hlow'
    · obtain ⟨hif,helse⟩ := hlow'.highContext houter hread (by rw [hp₁,hp₂]; simp)
      exact hlow'.of_raised (leafBlock_raised els (hels₁ hl₁) helse.lt_leafPred helse)
        (leafBlock_raised thn (hthn₂ hl₂) hif.lt_leafPred hif)
    · obtain ⟨hif,helse⟩ := hlow'.highContext houter hread (by rw [hp₁,hp₂]; simp)
      exact hlow'.of_raised (leafBlock_raised thn (hthn₁ hl₁) hif.lt_leafPred hif)
        (leafBlock_raised els (hels₂ hl₂) helse.lt_leafPred helse)
    · exact hthn (hthn₁ hl₁) (hthn₂ hl₂)
        (and_ne_false houter (branchPred_ne_false hp₁)).1 (hdt₁ hl₁) (hdt₂ hl₂) hlow'
  refine hmid.primitives ?_ ?_
  · rw [hassigned]
    exact hpost₁
  · rw [hassigned]
    exact hpost₂

theorem preservesLow (b : CodeBlock) : PreservesLow f prevIterHist h b := by
  induction b using inductElse with
  | plain ps =>
    intro outer pc d m σ₁ σ₂ l₁ l₂ _ _ _ hd₁ hd₂ hlow
    exact hlow.primitives hd₁ hd₂
  | ifThen pre p thn post ih =>
    intro outer pc d m σ₁ σ₂ l₁ l₂ hf₁ hf₂ houter hd₁ hd₂ hlow
    exact ih ⟨hf₁.1,hf₁.2,fun _ => trivial⟩ ⟨hf₂.1,hf₂.2,fun _ => trivial⟩ houter
      ⟨hd₁.1,hd₁.2.1,hd₁.2.2.1,fun _ => trivial,hd₁.2.2.2⟩ ⟨hd₂.1,hd₂.2.1,hd₂.2.2.1,fun _ => trivial,hd₂.2.2.2⟩ hlow
  | ifElse pre p thn els post ihthn ihels => exact preservesLow_ifElse ihthn ihels
end TwoRuns
section Iteration
variable {f : AggFun} {prevIterHist : VarMap Int} {ctx : PredContext} {curr curr' : VarMap PredHist}
theorem visitPrimitiveHist_lookup {p : Primitive} (h : visitPrimitiveHist f prevIterHist ctx curr p=.ok curr')
    (hx : (curr.lookup x).isSome ∨ p.target=some x) : (curr'.lookup x).isSome := by
  cases p with
  | assign y e =>
    have hput : ∃ hist, curr'=curr.put y hist := by
      obtain ⟨_,-,h⟩ := bind_eq_ok h
      obtain ⟨_,-,h⟩ := bind_eq_ok h
      obtain ⟨assignHist,-,h⟩ := bind_eq_ok h
      cases hy : curr.lookup y with
      | none =>
        rw [hy] at h
        exact ⟨assignHist,(Except.ok.inj h).symm⟩
      | some hists =>
        rw [hy] at h
        obtain ⟨hist,-,h⟩ := bind_eq_ok h
        exact ⟨hist,(Except.ok.inj h).symm⟩
    obtain ⟨hist,rfl⟩ := hput
    rw [VarMap.lookup_put]
    by_cases hxy : x=y
    · simp [hxy]
    · rw [if_neg hxy]
      exact hx.resolve_right fun htarget => hxy (some.inj htarget).symm
  | skip | emit =>
    cases h
    exact hx.resolve_right nofun

theorem visitPrimitivesHist_lookup (h : visitPrimitivesHist f prevIterHist ctx curr ps=.ok curr')
    (hx : (curr.lookup x).isSome ∨ x ∈ ps.filterMap target) : (curr'.lookup x).isSome := by
  induction ps generalizing curr with
  | nil =>
    cases h
    exact hx.resolve_right nofun
  | cons p ps ih =>
    obtain ⟨mid,hmid,h⟩ := bind_eq_ok h
    apply ih h
    rcases hx with hx | hx
    · exact .inl (visitPrimitiveHist_lookup hmid (.inl hx))
    · obtain ⟨q,hq,htarget⟩ := mem_filterMap.mp hx
      rcases mem_cons.mp hq with rfl | hq
      · exact .inl (visitPrimitiveHist_lookup hmid (.inr htarget))
      · exact .inr (mem_filterMap.mpr ⟨q,hq,htarget⟩)

theorem visitCodeBlockHist_lookup {b : CodeBlock} (h : visitCodeBlockHist f prevIterHist b ctx curr=.ok curr')
    (hx : (curr.lookup x).isSome ∨ x ∈ b.targets) : (curr'.lookup x).isSome := by
  induction b generalizing ctx curr curr' with
  | plain ps => exact visitPrimitivesHist_lookup h hx
  | ifThen pre p thn post ih =>
    obtain ⟨mid₁,hmid₁,h⟩ := bind_eq_ok h
    obtain ⟨ctxIf,-,h⟩ := bind_eq_ok h
    obtain ⟨mid₂,hmid₂,h⟩ := bind_eq_ok h
    simp only [targets,mem_append] at hx
    have hpre := fun h' => visitPrimitivesHist_lookup hmid₁ (x := x) h'
    have hthn := fun h' => ih hmid₂ h'
    apply visitPrimitivesHist_lookup h
    rcases hx with hx | (hx | hx) | hx
    · exact .inl (hthn (.inl (hpre (.inl hx))))
    · exact .inl (hthn (.inl (hpre (.inr hx))))
    · exact .inl (hthn (.inr hx))
    · exact .inr hx
  | ifElse pre p thn els post ihthn ihels =>
    obtain ⟨mid₁,hmid₁,h⟩ := bind_eq_ok h
    obtain ⟨ctxIf,-,h⟩ := bind_eq_ok h
    obtain ⟨mid₂,hmid₂,h⟩ := bind_eq_ok h
    obtain ⟨ctxElse,-,h⟩ := bind_eq_ok h
    obtain ⟨mid₃,hmid₃,h⟩ := bind_eq_ok h
    simp only [targets,mem_append] at hx
    have hpre := fun h' => visitPrimitivesHist_lookup hmid₁ (x := x) h'
    have hthn := fun h' => ihthn hmid₂ h'
    have hels := fun h' => ihels hmid₃ h'
    apply visitPrimitivesHist_lookup h
    rcases hx with hx | ((hx | hx) | hx) | hx
    · exact .inl (hels (.inl (hthn (.inl (hpre (.inl hx))))))
    · exact .inl (hels (.inl (hthn (.inl (hpre (.inr hx))))))
    · exact .inl (hels (.inl (hthn (.inr hx))))
    · exact .inl (hels (.inr hx))
    · exact .inr hx

private theorem foldl_max_spec (vs : List Int) (a : Int) : a≤vs.foldl max a ∧ ∀ v ∈ vs, v≤vs.foldl max a := by
  induction vs generalizing a with
  | nil => exact ⟨Int.le_refl a,nofun⟩
  | cons v vs ih =>
    obtain ⟨hacc,hmem⟩ := ih (max a v)
    refine ⟨Int.le_trans (Int.le_max_left a v) hacc,fun u hu => ?_⟩
    rcases mem_cons.mp hu with rfl | hu
    · exact Int.le_trans (Int.le_max_right a u) hacc
    · exact hmem u hu

theorem squash_nonneg (hists : PredHist) : 0≤hists.squash := (foldl_max_spec _ 0).1

theorem le_squash {hists : PredHist} {l : Leaf} {w : Int} (h : hists.at? l=some w) : w≤hists.squash := by
  apply (foldl_max_spec _ 0).2
  obtain ⟨⟨k,v⟩,he,hv⟩ := mem_filterMap.mp (mem_of_mem_head? h)
  split_ifs at hv
  exact mem_map.mpr ⟨(k,v),he,some.inj hv⟩
variable {out : VarMap Int}
theorem lookup_squashEntries {states : List String} {iterHist : VarMap PredHist}
    (h : squashEntries states iterHist=.ok out) (x : String) :
    (∀ hists, iterHist.lookup x=some hists → ∃ v, squashEntry states x hists=.ok v ∧ out.lookup x=some v) ∧
    (iterHist.lookup x=none → out.lookup x=none) := by
  induction iterHist generalizing out with
  | nil =>
    cases h
    exact ⟨nofun,fun _ => rfl⟩
  | cons e rest ih =>
    obtain ⟨y,hists⟩ := e
    obtain ⟨v,hv,h⟩ := bind_eq_ok h
    obtain ⟨out',hout',h⟩ := bind_eq_ok h
    cases h
    by_cases hxy : x=y
    · subst hxy
      simp only [lookup_cons,beq_self_eq_true]
      exact ⟨fun _ hsome => ⟨v,some.inj hsome ▸ hv,rfl⟩,nofun⟩
    · simp only [lookup_cons,beq_eq_false_iff_ne.mpr hxy]
      exact ih hout'

/-- A state with a history below the bound has been assigned on every leaf, under a history of at
most that; or it is never assigned. -/
theorem squashIterHist_spec {states : List String} {curr : VarMap PredHist} (h : squashIterHist states curr=.ok out)
    (hdisj : AllDisjoint curr) {s : String} (hs : s ∈ states) {v : Int} (hv : out.lookup s=some v)
    (hlt : v < maxPktHistory) : (curr.lookup s=none ∧ v = -1) ∨ (0≤v ∧ ∀ l, ∃ w, onLeaf curr l s=some w ∧ w≤v) := by
  obtain ⟨seen,hseen,h⟩ := bind_eq_ok h
  cases h
  obtain ⟨hsome,hnone⟩ := lookup_squashEntries hseen s
  rw [lookup_append] at hv
  cases hcurr : curr.lookup s with
  | none =>
    left
    rw [hnone hcurr,none_or] at hv
    obtain ⟨xs,ys,heq,-⟩ := lookup_eq_some_iff.mp hv
    have hmem : (s,v) ∈ xs++(s,v)::ys := by simp
    rw [← heq] at hmem
    obtain ⟨y,-,he⟩ := mem_map.mp hmem
    exact ⟨rfl,(congrArg Prod.snd he).symm⟩
  | some hists =>
    right
    obtain ⟨u,hu,hlookup⟩ := hsome hists hcurr
    rw [hlookup,some_or] at hv
    cases hv
    rw [squashEntry,if_pos hs] at hu
    obtain ⟨adjusted,hadjusted,hu⟩ := bind_eq_ok hu
    cases hu
    refine ⟨squash_nonneg _,fun l => ?_⟩
    have hroot := PredHist.isDisjoint_of_vals (v := fun _ => maxPktHistory) (PredHist.vals_singleton [] maxPktHistory)
    have hat := (PredHist.compareHist_spec hadjusted hroot.1 (hdisj s hists hcurr)).2 l
    cases hl : hists.at? l with
    | none =>
      rw [hl] at hat
      have hle := le_squash hat
      omega
    | some w =>
      rw [hl] at hat
      exact ⟨w,by simpa [onLeaf,hcurr] using hl,le_squash hat⟩

/-- One iteration makes the straight-line pass on every leaf; the first one finds every variable
assigned before it is read. -/
theorem iterateHist_spec (h : iterateHist f prevIterHist=.ok out) :
    ∃ curr, squashIterHist f.states curr=.ok out ∧ AllDisjoint curr ∧ (∀ x ∈ f.body.targets, (curr.lookup x).isSome) ∧
      (∀ l, onLeaf curr l=leafBlock f prevIterHist l f.body .predTrue 0 0 fun _ => none) ∧
      (prevIterHist=[] → ∀ l, BlockDefined f l f.body .predTrue 0 fun _ => false) := by
  obtain ⟨ctx,hctx,h⟩ := bind_eq_ok h
  obtain ⟨curr,hcurr,h⟩ := bind_eq_ok h
  obtain ⟨hpred,hnode,hhas,-⟩ := restoreFromStoredContext_spec hctx fun _ hl => hl
  have hvisit := visitCodeBlockHist_spec f.body hhas (show AllDisjoint [] from nofun) hcurr
  rw [hpred,hnode] at hvisit
  refine ⟨curr,h,hvisit.disjoint,fun x hx => visitCodeBlockHist_lookup hcurr (.inr hx),?_,?_⟩
  · intro l
    exact hvisit.of_covers rfl
  · intro hprev l
    exact hvisit.defined hprev l rfl
end Iteration
variable (f : AggFun) (σ pkt : Store)
/-- What the function sees of the states and of a packet; other variables of the packet are the
initial values of function variables. -/
def AggFun.load : Store := fun x =>
  if x ∈ f.states then σ x else pkt x

def AggFun.onPacket : Store := (f.run (f.load σ pkt)).1
def AggFun.process (σ : Store) (pkts : List Store) : Store := pkts.foldl f.onPacket σ
def AggFun.SamePacket (p q : Store) : Prop := ∀ x ∈ f.fields, p x=q x

/-- The last `n` packets determine a state, once the states that are never assigned are given. -/
def AggFun.DependsOnLast (s : String) (n : Nat) : Prop :=
  ∀ ⦃σ₁ σ₂ : Store⦄, (∀ x ∈ f.states, x ∉ f.body.targets → σ₁ x=σ₂ x) →
    ∀ before₁ before₂ ⦃last₁ last₂ : List Store⦄, last₁.length=n → List.Forall₂ f.SamePacket last₁ last₂ →
      f.process σ₁ (before₁++last₁) s=f.process σ₂ (before₂++last₂) s

def SoundFor (hists : VarMap Int) : Prop :=
  ∀ s ∈ f.states, ∀ h, hists.lookup s=some h → h < maxPktHistory → f.DependsOnLast s (h+1).toNat
section Packets
variable {f : AggFun}
theorem AggFun.onPacket_eq (σ pkt : Store) : f.onPacket σ pkt=f.body.effect (f.load σ pkt) := run_fst _ _ _ _

theorem AggFun.process_concat (σ : Store) (pkts : List Store) (pkt : Store) :
    f.process σ (pkts++[pkt])=f.body.effect (f.load (f.process σ pkts) pkt) := by
  simp [process,foldl_append,foldl_cons,foldl_nil,onPacket_eq]

theorem AggFun.process_of_not_target {s : String} (hs : s ∈ f.states) (htarget : s ∉ f.body.targets)
    (σ : Store) (pkts : List Store) : f.process σ pkts s=σ s := by
  induction pkts generalizing σ with
  | nil => rfl
  | cons pkt pkts ih =>
    refine (ih _).trans ?_
    rw [onPacket_eq,effect_of_not_target htarget,load,if_pos hs]

theorem AggFun.DependsOnLast.mono {s : String} {m n : Nat} (h : f.DependsOnLast s m)
    (hmn : m≤n) : f.DependsOnLast s n := by
  intro σ₁ σ₂ hconst before₁ before₂ last₁ last₂ hlen hagree
  have hsplit (before last : List Store) : before++last = (before++last.take (n-m))++last.drop (n-m) := by
    rw [append_assoc,take_append_drop]
  rw [hsplit before₁,hsplit before₂]
  refine h hconst _ _ ?_ (forall₂_drop _ hagree)
  rw [length_drop]
  omega

/-- If the histories of the iteration before are sound, variables of history at most `h` are
equal in two runs after `h` equal packets. -/
theorem SoundFor.low {hists : VarMap Int} (hsound : SoundFor f hists)
    (hfields : ∀ x ∈ f.states, x ∉ f.fields) {h : Int} (hlt : h < maxPktHistory)
    (hconst : ∀ x ∈ f.states, x ∉ f.body.targets → σ₁ x=σ₂ x)
    (before₁ before₂ : List Store) {last₁ last₂ : List Store} (hlen : last₁.length=h.toNat)
    (hagree : List.Forall₂ f.SamePacket last₁ last₂) {p q : Store} (hpq : f.SamePacket p q) :
    Low f hists h (fun _ => none) (fun _ => none) (f.load (f.process σ₁ (before₁++last₁)) p)
      (f.load (f.process σ₂ (before₂++last₂)) q) := by
  intro x hknown hx _
  simp only [leafHist,getD_none,leafDefault] at hx
  unfold load
  by_cases hs : x ∈ f.states
  · rw [if_pos hs,if_pos hs]
    cases hprev : hists.lookup x with
    | none =>
      rw [hprev] at hx
      dsimp only at hx
      rw [if_neg (hfields x hs),if_pos hs] at hx
      omega
    | some h' =>
      rw [hprev] at hx
      dsimp only at hx
      have hdepends := hsound x hs h' hprev (by omega)
      exact hdepends.mono (by omega) hconst before₁ before₂ hlen hagree
  · rw [if_neg hs,if_neg hs]
    rcases hknown with hs' | hfield | ⟨hfalse,-⟩
    · exact absurd hs' hs
    · exact hpq x hfield
    · cases hfalse

private theorem forall₂_concat {R : Store → Store → Prop} {xs ys : List Store} (h : List.Forall₂ R xs ys) {n : Nat}
    (hlen : xs.length=n+1) :
    ∃ xs' x ys' y, xs=xs'++[x] ∧ ys=ys'++[y] ∧ xs'.length=n ∧ List.Forall₂ R xs' ys' ∧ R x y := by
  have hys : ys≠[] := by
    rintro rfl
    rw [forall₂_nil_right_iff.mp h] at hlen
    cases hlen
  obtain ⟨ys',y,rfl⟩ := (eq_nil_or_concat' ys).resolve_left hys
  have hinit := forall₂_take_append xs ys' [y] h
  obtain ⟨x,rest,hxy,hrest,hdrop⟩ := forall₂_cons_right_iff.mp (forall₂_drop_append xs ys' [y] h)
  rw [forall₂_nil_right_iff] at hrest
  subst hrest
  have hxs : xs=xs.take ys'.length++[x] := by rw [← hdrop,take_append_drop]
  refine ⟨_,x,ys',y,hxs,rfl,?_,hinit,hxy⟩
  rw [hxs,length_append,length_singleton] at hlen
  omega
section
variable {hists out : VarMap Int} (hsound : SoundFor f hists) (hfields : ∀ x ∈ f.states, x ∉ f.fields)
  (hdefined : ∀ l, BlockDefined f l f.body .predTrue 0 fun _ => false)
include hsound hfields hdefined
theorem SoundFor.iterate (h : iterateHist f hists=.ok out) : SoundFor f out := by
  intro s hs v hv hlt
  obtain ⟨curr,hsquash,hdisj,htargets,honLeaf,-⟩ := iterateHist_spec h
  intro σ₁ σ₂ hconst before₁ before₂ last₁ last₂ hlen hagree
  rcases squashIterHist_spec hsquash hdisj hs hv hlt with ⟨hnone,-⟩ | ⟨hnonneg,hleaf⟩
  · have hnot : s ∉ f.body.targets := fun hmem => by simpa [hnone] using htargets s hmem
    rw [process_of_not_target hs hnot,process_of_not_target hs hnot]
    exact hconst s hs hnot
  · -- the last packet, and the ones before it that the histories of this packet count
    obtain ⟨init₁,p,init₂,q,rfl,rfl,hinit,hagree,hpq⟩ := forall₂_concat hagree (n := v.toNat) (by omega)
    rw [← append_assoc,← append_assoc,process_concat,process_concat]
    have hlow := hsound.low hfields hlt hconst before₁ before₂ hinit hagree hpq
    obtain ⟨l₁,-,hfollows₁⟩ := exists_follows f.body 0 (f.load (f.process σ₁ (before₁++init₁)) p) fun _ => false
    obtain ⟨l₂,-,hfollows₂⟩ := exists_follows f.body 0 (f.load (f.process σ₂ (before₂++init₂)) q) fun _ => false
    have hafter : Low f hists v (onLeaf curr l₁) (onLeaf curr l₂)
        (f.body.effect (f.load (f.process σ₁ (before₁++init₁)) p))
        (f.body.effect (f.load (f.process σ₂ (before₂++init₂)) q)) := by
      rw [honLeaf,honLeaf]
      exact preservesLow f.body hfollows₁ hfollows₂ (by simp) (hdefined l₁) (hdefined l₂) hlow
    obtain ⟨w₁,hw₁,hle₁⟩ := hleaf l₁
    obtain ⟨w₂,hw₂,hle₂⟩ := hleaf l₂
    exact hafter s (.inl hs) (by rwa [leafHist,hw₁]) (by rwa [leafHist,hw₂])

theorem SoundFor.loop {n : Nat} (h : historyLoop f n hists=.ok out) : SoundFor f out := by
  induction n generalizing hists with
  | zero =>
    cases h
    exact hsound
  | succ n ih =>
    obtain ⟨squashed,hsquashed,h⟩ := bind_eq_ok h
    have hnext := hsound.iterate hfields hdefined hsquashed
    split_ifs at h
    · cases h
      exact hnext
    · exact ih hnext h
end

/-- A history `k` below the bound: the last `k + 1` packets determine the state, whatever came
before and whatever the initial values of the states that the function assigns.  States are not
fields, as the symbol table requires. -/
theorem getConvergedHistory_sound (hfields : ∀ x ∈ f.states, x ∉ f.fields) {hists : VarMap Int}
    (h : getConvergedHistory f=.ok hists) {s : String} (hs : s ∈ f.states) {k : Int} (hk : hists.lookup s=some k)
    (hlt : k < maxPktHistory) {σ₁ σ₂ : Store} (hconst : ∀ x ∈ f.states, x ∉ f.body.targets → σ₁ x=σ₂ x)
    (before₁ before₂ : List Store) {last₁ last₂ : List Store} (hlen : (last₁.length : Int)=k+1)
    (hagree : List.Forall₂ f.SamePacket last₁ last₂) :
    f.process σ₁ (before₁++last₁) s=f.process σ₂ (before₂++last₂) s := by
  have hempty : SoundFor f [] := fun _ _ _ hlookup => by cases hlookup
  -- the first iteration, with no histories before it, asserts that nothing is read too early
  have hfirst : ∃ out, iterateHist f []=.ok out := by
    obtain ⟨out,hout,-⟩ := bind_eq_ok h
    exact ⟨out,hout⟩
  obtain ⟨out,hout⟩ := hfirst
  obtain ⟨-,-,-,-,-,hdefined⟩ := iterateHist_spec hout
  have hsound := hempty.loop hfields (hdefined rfl) h
  exact hsound s hs k hk hlt hconst before₁ before₂ (by omega) hagree
end Packets

def copyConstant : AggFun := ⟨"copy",["s","t"],["x"],.plain [.assign "s" (.col "t")]⟩

/-- A state that is only read has history -1, yet it keeps its initial value for ever. -/
theorem copyConstant_depends_on_initial_state : getConvergedHistory copyConstant=.ok [("s",0),("t",-1)] ∧
      copyConstant.process (fun _ => 0) [fun _ => 7] "s" = 0 ∧
      copyConstant.process (fun _ => 1) [fun _ => 7] "s" = 1 := by
  decide +kernel

/-- `def delayed([c, b, a], [x]): c = b; b = a; if (x == 0) { a = 1; } else { a = x; }`. -/
def delayed : AggFun :=
  ⟨"delayed",["c","b","a"],["x"],
    .ifElse [.assign "c" (.col "b"),.assign "b" (.col "a")] (.eq (.col "x") (.val (.number 0)))
      (.plain [.assign "a" (.val (.number 1))]) (.plain [.assign "a" (.col "x")]) []⟩

theorem delayed_last_three_packets : delayed.process (fun _ => 0) ([]++[fun _ => 5,fun _ => 0,fun _ => 7]) "c" =
      delayed.process (fun _ => 9) ([fun _ => 1]++[fun _ => 5,fun _ => 0,fun _ => 7]) "c" :=
  getConvergedHistory_sound (by decide)
    (show getConvergedHistory delayed=.ok [("a",0),("b",1),("c",2)] by decide +kernel)
    (by decide) (show _=some 2 by decide) (by decide) (by decide) _ _ rfl
    (forall₂_same.mpr fun _ _ _ _ => rfl)
end P4Benchmarks.Marple
