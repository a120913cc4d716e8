import Mathlib.Data.Option.Basic
/-! # Executions of partial step functions -/
namespace P4Benchmarks.Lib
open List
universe u v
variable {σ : Type u} {α : Type v}
/-- The state after a list of inputs, if the machine accepts each of them. -/
def exec (step : σ → α → Option σ) : σ → List α → Option σ
  | s, [] => some s
  | s, a::as =>
    match step s a with
    | none => none
    | some t => exec step t as

/-- Each input of the run meets `cond` in the state it is applied to. -/
def EachStep (step : σ → α → Option σ) (cond : σ → α → Prop) : σ → List α → Prop
  | _, [] => True
  | s, a::as => cond s a ∧ (match step s a with | none => True | some t => EachStep step cond t as)

instance EachStep.decidable (step : σ → α → Option σ) (cond : σ → α → Prop)
    [∀ s a, Decidable (cond s a)] : ∀ s as, Decidable (EachStep step cond s as)
  | _, [] => .isTrue trivial
  | s, a::as =>
    have : Decidable (match step s a with | none => True | some t => EachStep step cond t as) :=
      match step s a with
      | none => .isTrue trivial
      | some t => EachStep.decidable step cond t as
    inferInstanceAs (Decidable (cond s a ∧ _))
variable (step : σ → α → Option σ)
@[simp] theorem exec_nil (s : σ) : exec step s []=some s := rfl
theorem exec_cons (s : σ) (a : α) (as : List α) : exec step s (a::as)=(step s a).bind fun t => exec step t as := by
  rw [exec]
  cases step s a <;> rfl
variable {as : List α} {step : σ → α → Option σ}
theorem exec_cons_eq_some {s u : σ} {a : α} :
    exec step s (a::as)=some u ↔ ∃ t, step s a=some t ∧ exec step t as=some u := by
  rw [exec_cons,Option.bind_eq_some_iff]

theorem exec_append (step : σ → α → Option σ) (s : σ) (as bs : List α) :
    exec step s (as++bs)=(exec step s as).bind fun t => exec step t bs := by
  induction as generalizing s with
  | nil => rfl
  | cons a as ih =>
    rw [cons_append,exec_cons,exec_cons,Option.bind_assoc]
    congr 1
    funext t
    exact ih t
variable {cond : σ → α → Prop}
theorem EachStep.head {s : σ} {a : α} (h : EachStep step cond s (a::as)) : cond s a := h.1

theorem EachStep.tail {s t : σ} {a : α} (h : EachStep step cond s (a::as)) (hst : step s a=some t) :
    EachStep step cond t as := by
  have hrest := h.2
  rw [hst] at hrest
  exact hrest

theorem EachStep.cons {s t : σ} {a : α} (h : cond s a) (hst : step s a = some t)
    (hrest : EachStep step cond t as) : EachStep step cond s (a::as) :=
  ⟨h,by rwa [hst]⟩

theorem EachStep.congr {cond cond' : σ → α → Prop} (h : ∀ s a, cond s a ↔ cond' s a) {s : σ} :
    EachStep step cond s as ↔ EachStep step cond' s as := by
  have heq : cond=cond' := by
    funext s a
    exact propext (h s a)
  rw [heq]

theorem EachStep.and {cond cond' : σ → α → Prop} {s : σ} (h : EachStep step cond s as) (h' : EachStep step cond' s as) :
    EachStep step (fun s a => cond s a ∧ cond' s a) s as := by
  induction as generalizing s with
  | nil => trivial
  | cons a as ih =>
    refine ⟨⟨h.head,h'.head⟩,?_⟩
    cases hstep : step s a with
    | none => trivial
    | some t => exact ih (h.tail hstep) (h'.tail hstep)
variable {I : σ → Prop}
theorem exec_invariant (keep : ∀ s a t, I s → cond s a → step s a=some t → I t) {s u : σ} (hinit : I s)
    (hrun : exec step s as=some u) (hcond : EachStep step cond s as) : I u := by
  induction as generalizing s with
  | nil =>
    cases hrun
    exact hinit
  | cons a as ih =>
    obtain ⟨t,hstep,hrest⟩ := exec_cons_eq_some.mp hrun
    exact ih (keep s a t hinit hcond.head hstep) hrest (hcond.tail hstep)

theorem exec_invariant_mem {s u : σ} (keep : ∀ s, ∀ a ∈ as, ∀ t, I s → step s a=some t → I t) (hinit : I s)
    (hrun : exec step s as=some u) : I u := by
  induction as generalizing s with
  | nil =>
    cases hrun
    exact hinit
  | cons a as ih =>
    obtain ⟨t,hstep,hrest⟩ := exec_cons_eq_some.mp hrun
    exact ih (fun s a ha => keep s a (mem_cons_of_mem _ ha)) (keep s a mem_cons_self t hinit hstep) hrest

/-- A run whose steps move along a preorder reaches what each step reaches and the order keeps. -/
theorem exec_grows {R : σ → σ → Prop} {Q : σ → α → Prop} (hrefl : ∀ s, R s s) (htrans : ∀ s t u, R s t → R t u → R s u)
    (hinv : ∀ s t, R s t → I s → I t) (hstep : ∀ s, I s → ∀ a, ∃ t, step s a=some t ∧ R s t ∧ Q t a)
    (hkeep : ∀ s t a, R s t → Q s a → Q t a) {s : σ} (hs : I s) (as : List α) :
    ∃ t, exec step s as=some t ∧ R s t ∧ ∀ a ∈ as, Q t a := by
  induction as generalizing s with
  | nil => exact ⟨s,rfl,hrefl s,by simp⟩
  | cons a as ih =>
    obtain ⟨t,ht,hst,ha⟩ := hstep s hs a
    obtain ⟨u,hu,htu,has⟩ := ih (hinv s t hst hs)
    refine ⟨u,exec_cons_eq_some.mpr ⟨t,ht,hu⟩,htrans s t u hst htu,?_⟩
    simp only [mem_cons,forall_eq_or_imp]
    exact ⟨hkeep t u a htu ha,has⟩

theorem exec_guard (P : α → Prop) [DecidablePred P] (f : σ → α → σ) (s : σ) (as : List α) :
    exec (fun s a => if P a then some (f s a) else none) s as =
      if ∀ a ∈ as, P a then some (as.foldl f s) else none := by
  induction as generalizing s with
  | nil => simp
  | cons a as ih =>
    by_cases ha : P a
    · simp [exec_cons,ha,ih]
    · simp [exec_cons,ha]

/-- A run of `f` stays equal to a run of `g` on the inputs that `keep` selects exactly if each
other input leaves the state alone. -/
theorem forall_take_foldl_filter_iff {f g : σ → α → σ} {keep : α → Bool}
    (hkeep : ∀ s a, keep a → f s a=g s a) (s : σ) (as : List α) :
    (∀ n, (as.take n).foldl f s=((as.take n).filter keep).foldl g s) ↔
      EachStep (fun s a => some (f s a)) (fun s a => keep a ∨ f s a=s) s as := by
  induction as generalizing s with
  | nil => simp [EachStep]
  | cons a as ih =>
    have hstep : EachStep (fun s a => some (f s a)) (fun s a => keep a ∨ f s a=s) s (a::as) ↔ (keep a ∨ f s a=s) ∧
          EachStep (fun s a => some (f s a)) (fun s a => keep a ∨ f s a=s) (f s a) as :=
      Iff.rfl
    rw [hstep,← ih]
    cases hka : keep a with
    | true =>
      simp only [true_or,true_and]
      constructor
      · intro h n
        have hn := h (n+1)
        rwa [take_succ_cons,foldl_cons,filter_cons_of_pos hka,foldl_cons,← hkeep s a hka] at hn
      · intro h n
        cases n with
        | zero => rfl
        | succ n =>
          rw [take_succ_cons,foldl_cons,filter_cons_of_pos hka,foldl_cons,← hkeep s a hka]
          exact h n
    | false =>
      simp only [Bool.false_eq_true,false_or]
      have hdrop (n : Nat) : ((a::as).take (n+1)).filter keep=(as.take n).filter keep := by
        rw [take_succ_cons,filter_cons_of_neg (by simp [hka])]
      constructor
      · intro h
        -- the prefix that ends with `a` shows that `a` changes nothing
        have hsame : f s a=s := by simpa [hka] using h 1
        refine ⟨hsame,fun n => ?_⟩
        have hn := h (n+1)
        rw [hdrop,take_succ_cons,foldl_cons] at hn
        rw [hn,hsame]
      · rintro ⟨hsame,h⟩ n
        cases n with
        | zero => rfl
        | succ n => rw [hdrop,take_succ_cons,foldl_cons,h n,hsame]
end P4Benchmarks.Lib
