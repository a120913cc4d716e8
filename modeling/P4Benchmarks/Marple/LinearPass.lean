import P4Benchmarks.Marple.GeneratedCode
/-! # The linear-in-state pass on if-converted functions -/
namespace P4Benchmarks.Marple
open List

structure Compiled where
  fn : AggFun
  fnVars : List String
  incr : Nat
  hist : HistMap

def Compiled.input (g : Compiled) : LinearInput where
  toc := (visitAggFun g.fn g.fnVars g.incr).1
  hist := g.hist
  states := g.fn.states
  fields := g.fn.fields

def getAggFunCode (gs : List Compiled) : Except JavaError (List ThreeOpCode) := do
  match ← extractLinearUpdates (gs.map Compiled.input) with
  | some codes => .ok codes
  | none => .ok (gs.map fun g => g.input.toc)

private theorem mapM_eq_ok {α β : Type} {f : α → Except JavaError β} {as : List α} {bs : List β}
    (h : as.mapM f=.ok bs) : (∀ p ∈ as.zip bs, f p.1=.ok p.2) ∧ ∀ a ∈ as, ∃ b ∈ bs, f a=.ok b := by
  induction as generalizing bs with
  | nil => simp
  | cons a as ih =>
    rw [mapM_cons] at h
    obtain ⟨b,hb,h⟩ := bind_eq_ok h
    obtain ⟨bs',hbs,h⟩ := bind_eq_ok h
    cases h
    obtain ⟨hzip,hall⟩ := ih hbs
    rw [zip_cons_cons,forall_mem_cons,forall_mem_cons]
    exact ⟨⟨hb,hzip⟩,⟨b,mem_cons_self,hb⟩,fun c hc => (hall c hc).imp fun _ h => ⟨mem_cons_of_mem b h.1,h.2⟩⟩

theorem extractLinearUpdates_performed {gs : List LinearInput} {codes : List ThreeOpCode}
    (h : extractLinearUpdates gs=.ok (some codes)) :
    (∀ g ∈ gs, g.isLinear=.ok true) ∧ ∀ p ∈ gs.zip codes, p.1.transform=.ok p.2 := by
  obtain ⟨lis,hlis,h⟩ := bind_eq_ok h
  split_ifs at h with hall
  · obtain ⟨codes',hcodes,h⟩ := bind_eq_ok h
    cases Except.ok.inj h
    refine ⟨fun g hg => ?_,(mapM_eq_ok hcodes).1⟩
    obtain ⟨b,hb,hlinear⟩ := (mapM_eq_ok hlis).2 g hg
    rw [hlinear,show b=true from all_eq_true.mp hall b hb]
  · cases h

theorem allLinear_eq_true {toc : ThreeOpCode} {hist : HistMap} {states : List String}
    (h : allLinear toc hist states=.ok true) : ∀ x ∈ states, detectLinearInState x hist toc.stmts=.ok true := by
  induction states with
  | nil => simp
  | cons state rest ih =>
    obtain ⟨lis,hlis,h⟩ := bind_eq_ok h
    obtain ⟨others,hothers,h⟩ := bind_eq_ok h
    have hboth : lis ∧ others := by simpa using h
    intro x hx
    rcases mem_cons.mp hx with rfl | hx
    · rw [hlis,hboth.1]
    · exact ih (by rw [hothers,hboth.2]) x hx
variable {g : Compiled}
theorem Compiled.adjustable (hlex : g.fn.Lexical) {hist : HistMap} {x : String}
    (hdetect : detectLinearInState x hist g.input.toc.stmts=.ok true) : Adjustable x hist g.input.toc.stmts := by
  have hgen := visitAggFun_generated g.fn g.fnVars g.incr
  have hident : ∀ s ∈ g.input.toc.stmts, ∀ y ∈ s.intVars, isUserIdent y := by
    intro s hs y hy
    exact hlex y (mem_append_right _ ((hgen s hs).intVars y hy))
  refine ⟨detectLinearInState_iff.mp hdetect,fun s hs => (hgen s hs).keepsElse,?_,?_⟩
  all_goals
    intro s hs hmem
    exact ne_coeffName (hident s hs _ hmem) _ _ rfl

theorem Compiled.isUserIdent_states (hlex : g.fn.Lexical) : ∀ x ∈ g.fn.states, isUserIdent x := by
  intro x hx
  exact hlex x (mem_append_left _ hx)

theorem Compiled.infStates_subset : ∀ x ∈ g.input.infStates, x ∈ g.fn.states := by
  intro x hx
  exact mem_of_mem_filter hx
open Compiled
theorem Compiled.adjusted {gs : List Compiled} {codes : List ThreeOpCode}
    (h : extractLinearUpdates (gs.map Compiled.input)=.ok (some codes)) {g : Compiled}
    {toc' : ThreeOpCode} (hg : (g,toc') ∈ gs.zip codes) (hlex : g.fn.Lexical) :
    ∃ hist, adjustAll hist g.input.infStates g.input.toc=.ok toc' ∧
      ∀ x ∈ g.input.infStates, Adjustable x hist g.input.toc.stmts := by
  obtain ⟨hlinear,htrans⟩ := extractLinearUpdates_performed h
  have hlin := hlinear g.input (mem_map_of_mem (of_mem_zip hg).1)
  have hzip : (g.input,toc') ∈ (gs.map input).zip codes := by
    rw [zip_map_left,mem_map]
    exact ⟨(g,toc'),hg,rfl⟩
  obtain ⟨hist,hhist,hlin⟩ := bind_eq_ok hlin
  obtain ⟨hist',hhist',hadj⟩ := bind_eq_ok (htrans _ hzip)
  rw [hhist] at hhist'
  cases hhist'
  exact ⟨hist,hadj,fun x hx => adjustable hlex (allLinear_eq_true hlin x hx)⟩

def SameBehaviour (f : AggFun) (toc toc' : ThreeOpCode) (env : Env) : Prop :=
  let out := execStmts f.states toc.stmts 0 env
  let out' := execStmts f.states toc'.stmts 0 env
  (∀ x ∈ f.states, out'.1.int x=out.1.int x) ∧ out'.2=out.2

/-- Whenever the body reaches an `emit()`, the states in `inf` hold what they held before the
packet. -/
def EmitsBeforeUpdates (f : AggFun) (inf : List String) (σ : Store) : Prop :=
  ∀ em ∈ (f.run σ).2, ∀ xv ∈ em.values, xv.1 ∈ inf → xv.2=σ xv.1

instance (f : AggFun) (toc toc' : ThreeOpCode) (env : Env) : Decidable (SameBehaviour f toc toc' env) :=
  inferInstanceAs (Decidable (_ ∧ _))

instance (f : AggFun) (inf : List String) (σ : Store) : Decidable (EmitsBeforeUpdates f inf σ) :=
  inferInstanceAs (Decidable (∀ em ∈ (f.run σ).2, ∀ xv ∈ em.values, _))

private theorem map_eq_self_iff {α : Type} {f : α → α} {as : List α} : as.map f=as ↔ ∀ a ∈ as, f a=a := by
  have h := map_inj_left (l := as) (f := f) (g := id)
  simpa using h

theorem Emission.reset_eq_self_iff {frozen : List String} {σ : Store} {em : Emission} :
    em.reset frozen σ=em ↔ ∀ xv ∈ em.values, xv.1 ∈ frozen → xv.2=σ xv.1 := by
  have hvalues : em.reset frozen σ=em ↔
      em.values.map (fun xv => (xv.1,if xv.1 ∈ frozen then σ xv.1 else xv.2))=em.values := by
    cases em
    simp [Emission.reset]
  rw [hvalues,map_eq_self_iff]
  refine forall₂_congr fun xv _ => ?_
  by_cases hx : xv.1 ∈ frozen
  · simp [hx,Prod.ext_iff,eq_comm]
  · simp [hx]

/-- Deferring the updates is invisible exactly if no emit comes after the first change of an
infinite-history state. -/
theorem extractLinearUpdates_sameBehaviour_iff {gs : List Compiled} {codes : List ThreeOpCode}
    (h : extractLinearUpdates (gs.map Compiled.input)=.ok (some codes)) {g : Compiled} {toc' : ThreeOpCode}
    (hg : (g,toc') ∈ gs.zip codes) (hlex : g.fn.Lexical) (hnodup : g.fn.states.Nodup) (env : Env) :
    SameBehaviour g.fn g.input.toc toc' env ↔ EmitsBeforeUpdates g.fn g.input.infStates env.int := by
  obtain ⟨hist,hadj,hadjustable⟩ := adjusted h hg hlex
  have huser := isUserIdent_states hlex
  obtain ⟨hint,hlog⟩ := adjustAll_spec huser (hnodup.filter _)
    (fun x hx => huser x (infStates_subset x hx)) hadjustable hadj env
  have hemits : (execStmts g.fn.states toc'.stmts 0 env).2 = (execStmts g.fn.states g.input.toc.stmts 0 env).2 ↔
      EmitsBeforeUpdates g.fn g.input.infStates env.int := by
    have hrun : (execStmts g.fn.states g.input.toc.stmts 0 env).2=(g.fn.run env.int).2 :=
      (visitCodeBlock_outer g.fn g.incr .predTrue env).2
    rw [hlog,map_eq_self_iff,hrun]
    simp only [Emission.reset_eq_self_iff]
    exact Iff.rfl
  constructor
  · intro hsame
    exact hemits.mp hsame.2
  · intro hbefore
    exact ⟨fun x hx => hint x (huser x hx),hemits.mpr hbefore⟩

/-- Both passes together: the transformed code gives every user variable the value that the body
gives it, and emits where the body does, with the infinite-history states as before the packet. -/
theorem extractLinearUpdates_computes {gs : List Compiled} {codes : List ThreeOpCode}
    (h : extractLinearUpdates (gs.map Compiled.input)=.ok (some codes)) {g : Compiled} {toc' : ThreeOpCode}
    (hg : (g,toc') ∈ gs.zip codes) (hlex : g.fn.Lexical) (hnodup : g.fn.states.Nodup) (env : Env) :
    let out := execStmts g.fn.states toc'.stmts 0 env
    (∀ x, isUserIdent x → out.1.int x=(g.fn.run env.int).1 x) ∧
      out.2=(g.fn.run env.int).2.map (Emission.reset g.input.infStates env.int) := by
  obtain ⟨hist,hadj,hadjustable⟩ := adjusted h hg hlex
  have huser := isUserIdent_states hlex
  obtain ⟨hint,hlog⟩ := adjustAll_spec huser (hnodup.filter _)
    (fun x hx => huser x (infStates_subset x hx)) hadjustable hadj env
  obtain ⟨hvalues,hemits⟩ := visitCodeBlock_outer g.fn g.incr .predTrue env
  exact ⟨fun x hx => (hint x hx).trans (congrFun hvalues x),hlog.trans (congrArg _ hemits)⟩

def perc : AggFun where
  name := "perc"
  states := ["tot","high"]
  fields := ["qin"]
  body := .ifThen [] (.gt (.col "qin") (.val (.number 1000)))
    (.plain [.assign "high" (.comb .add (.col "high") (.val (.number 1)))])
    [.assign "tot" (.comb .add (.col "tot") (.val (.number 1))),.emit]

def percCompiled : Compiled where
  fn := perc
  fnVars := []
  incr := 0
  hist := fun x => if x ∈ perc.states then some maxPktHistory else none

/-- The packet that makes the total 1 is emitted with the total 0. -/
theorem perc_emits_old_total : ∃ toc', extractLinearUpdates [percCompiled.input]=.ok (some [toc']) ∧
      ¬ SameBehaviour perc percCompiled.input.toc toc' ⟨fun _ => 0,fun _ => false⟩ :=
  ⟨_,rfl,by decide +kernel⟩

theorem perc_computed : ∃ toc', extractLinearUpdates [percCompiled.input]=.ok (some [toc']) ∧
      (execStmts perc.states toc'.stmts 0 ⟨fun _ => 2000,fun _ => false⟩).1.int "high"=2001 :=
  ⟨_,rfl,(extractLinearUpdates_computes (show extractLinearUpdates ([percCompiled].map input)=_ from rfl)
    (mem_singleton.mpr rfl) (by decide +kernel) (by decide) _).1 "high" (by decide +kernel)⟩

/-- `def fl_detect ([last_time, size], [tin])` of `flowlet_sum.sql`, which emits first. -/
def flDetect : AggFun where
  name := "fl_detect"
  states := ["last_time","size"]
  fields := ["tin"]
  body := .ifElse [.assign "delta" (.val (.number 5))] (.gt (.comb .sub (.col "tin") (.col "last_time")) (.col "delta"))
    (.plain [.emit,.assign "size" (.val (.number 1))])
    (.plain [.assign "size" (.comb .add (.col "size") (.val (.number 1)))])
    [.assign "last_time" (.col "tin")]

def flDetectCompiled : Compiled where
  fn := flDetect
  fnVars := ["delta"]
  incr := 0
  hist := fun x =>
    if x = "size" then some maxPktHistory
    else if x = "last_time" ∨ x = "delta" then some 0 else none

/-- The first packet after a pause reports the size of the flowlet before it. -/
theorem flDetect_sameBehaviour : ∃ toc', extractLinearUpdates [flDetectCompiled.input]=.ok (some [toc']) ∧
      SameBehaviour flDetect flDetectCompiled.input.toc toc' ⟨fun x => if x = "tin" then 20 else 3,fun _ => false⟩ :=
  ⟨_,rfl,(extractLinearUpdates_sameBehaviour_iff
    (show extractLinearUpdates ([flDetectCompiled].map input)=_ from rfl)
    (mem_singleton.mpr rfl) (by decide +kernel) (by decide) _).mpr (by decide +kernel)⟩
end P4Benchmarks.Marple
