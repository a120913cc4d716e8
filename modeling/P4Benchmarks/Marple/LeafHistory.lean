import P4Benchmarks.Marple.HistoryDetector
/-! # The history analysis on one leaf -/
namespace P4Benchmarks.Marple
open Function PredHist
abbrev LeafHist := String → Option Int
section Leaf
variable (f : AggFun) (prevIterHist : VarMap Int)
def leafDefault (x : String) : Int :=
  match prevIterHist.lookup x with
  | some h => min (h+1) maxPktHistory
  | none => if x ∈ f.fields then 0 else if x ∈ f.states then maxPktHistory else -1
variable (m : LeafHist)
def leafHist (x : String) : Int := (m x).getD (leafDefault f prevIterHist x)

def leafMax (h : Int) (vars : List String) : Int :=
  vars.foldl (fun acc x => max acc (leafHist f prevIterHist m x)) h

def leafPrimitive (pc : Int) (m : LeafHist) : Primitive → LeafHist
  | .assign x e => update m x (some (max (leafMax f prevIterHist m 0 (AugExpr.ofExpr e).getUsedVars) pc))
  | .skip => m
  | .emit => m

def leafPrimitives (pc : Int) (m : LeafHist) (ps : List Primitive) : LeafHist :=
  ps.foldl (leafPrimitive f prevIterHist pc) m

def leafPred (p : AugPred) : Int := leafMax f prevIterHist m 0 p.getUsedVars

def leafBlock (l : Leaf) : CodeBlock → AugPred → Int → Nat → LeafHist → LeafHist
  | .plain ps, _, pc, _, m => leafPrimitives f prevIterHist pc m ps
  | .ifThen pre p thn post, outer, pc, d, m =>
    let m := leafPrimitives f prevIterHist pc m pre
    let outerIf := outer.and (.ofPredicate p)
    let m := if l d then leafBlock l thn outerIf (leafPred f prevIterHist m outerIf) (d+1) m else m
    leafPrimitives f prevIterHist pc m post
  | .ifElse pre p thn els post, outer, pc, d, m =>
    let m := leafPrimitives f prevIterHist pc m pre
    let outerIf := outer.and (.ofPredicate p)
    let outerElse := outer.and (AugPred.ofPredicate p).not
    let m :=
      if l d then leafBlock l thn outerIf (leafPred f prevIterHist m outerIf) (d+1) m
      else leafBlock l els outerElse (leafPred f prevIterHist m outerElse) (d+1) m
    leafPrimitives f prevIterHist pc m post
end Leaf

abbrev Assigned := String → Bool
@[local simp] def LeafHist.assigned (m : LeafHist) : Assigned := fun x => (m x).isSome

def Readable (f : AggFun) (a : Assigned) (vars : List String) : Prop :=
  ∀ x ∈ vars, x ∈ f.states ∨ x ∈ f.fields ∨ a x

def assignedPrimitive (a : Assigned) : Primitive → Assigned
  | .assign x _ => update a x true
  | .skip => a
  | .emit => a

def assignedPrimitives (a : Assigned) (ps : List Primitive) : Assigned := ps.foldl assignedPrimitive a

def assignedBlock (l : Leaf) : CodeBlock → Nat → Assigned → Assigned
  | .plain ps, _, a => assignedPrimitives a ps
  | .ifThen pre _ thn post, d, a =>
    let a := assignedPrimitives a pre
    assignedPrimitives (if l d then assignedBlock l thn (d+1) a else a) post
  | .ifElse pre _ thn els post, d, a =>
    let a := assignedPrimitives a pre
    assignedPrimitives (if l d then assignedBlock l thn (d+1) a else assignedBlock l els (d+1) a) post

def PrimitivesDefined (f : AggFun) : Assigned → List Primitive → Prop
  | _, [] => True
  | a, .assign x e::ps => Readable f a (AugExpr.ofExpr e).getUsedVars ∧ PrimitivesDefined f (update a x true) ps
  | a, .skip::ps => PrimitivesDefined f a ps
  | a, .emit::ps => PrimitivesDefined f a ps

def BlockDefined (f : AggFun) (l : Leaf) : CodeBlock → AugPred → Nat → Assigned → Prop
  | .plain ps, _, _, a => PrimitivesDefined f a ps
  | .ifThen pre p thn post, outer, d, a =>
    let a' := assignedPrimitives a pre
    let outerIf := outer.and (.ofPredicate p)
    PrimitivesDefined f a pre ∧ Readable f a' outerIf.getUsedVars ∧ (l d → BlockDefined f l thn outerIf (d+1) a') ∧
      PrimitivesDefined f (if l d then assignedBlock l thn (d+1) a' else a') post
  | .ifElse pre p thn els post, outer, d, a =>
    let a' := assignedPrimitives a pre
    let outerIf := outer.and (.ofPredicate p)
    let outerElse := outer.and (AugPred.ofPredicate p).not
    PrimitivesDefined f a pre ∧ Readable f a' outerIf.getUsedVars ∧ (l d → BlockDefined f l thn outerIf (d+1) a') ∧
      (l d=false → BlockDefined f l els outerElse (d+1) a') ∧
      PrimitivesDefined f (if l d then assignedBlock l thn (d+1) a' else assignedBlock l els (d+1) a') post
section Laws
variable {f : AggFun} {prevIterHist : VarMap Int}
theorem assigned_leafPrimitive (pc : Int) (m : LeafHist) (p : Primitive) :
    (leafPrimitive f prevIterHist pc m p).assigned=assignedPrimitive m.assigned p := by
  cases p with
  | assign x e =>
    funext y
    by_cases hy : y=x <;> simp [leafPrimitive,assignedPrimitive,hy]
  | skip | emit => rfl

theorem assigned_leafPrimitives (pc : Int) (m : LeafHist) (ps : List Primitive) :
    (leafPrimitives f prevIterHist pc m ps).assigned=assignedPrimitives m.assigned ps := by
  induction ps generalizing m with
  | nil => rfl
  | cons p ps ih =>
    show (leafPrimitives f prevIterHist pc (leafPrimitive f prevIterHist pc m p) ps).assigned=_
    rw [ih,assigned_leafPrimitive]
    rfl

theorem assigned_leafBlock (l : Leaf) (b : CodeBlock) (outer : AugPred) (pc : Int) (d : Nat) (m : LeafHist) :
    (leafBlock f prevIterHist l b outer pc d m).assigned=assignedBlock l b d m.assigned := by
  induction b using CodeBlock.inductElse generalizing outer pc d m with
  | plain ps => exact assigned_leafPrimitives pc m ps
  | ifThen pre p thn post ih => exact ih _ _ _ _
  | ifElse pre p thn els post ihthn ihels =>
    simp only [leafBlock,assignedBlock,assigned_leafPrimitives]
    split <;> simp only [ihthn,ihels,assigned_leafPrimitives]

theorem le_leafMax (m : LeafHist) (h : Int) (vars : List String) : h≤leafMax f prevIterHist m h vars := by
  induction vars generalizing h with
  | nil => exact Int.le_refl h
  | cons x vars ih => exact Int.le_trans (Int.le_max_left _ _) (ih _)
variable {vars : List String} {x : String}
theorem leafHist_le_leafMax (m : LeafHist) (h : Int)
    (hx : x ∈ vars) : leafHist f prevIterHist m x≤leafMax f prevIterHist m h vars := by
  induction vars generalizing h with
  | nil => cases hx
  | cons y vars ih =>
    rcases List.mem_cons.mp hx with rfl | hx
    · exact Int.le_trans (Int.le_max_right _ _) (le_leafMax _ _ _)
    · exact ih _ hx
variable (curr : VarMap PredHist)
@[local simp] def onLeaf (l : Leaf) : LeafHist := fun x =>
  (curr.lookup x).bind fun hists => hists.at? l

def AllDisjoint : Prop := ∀ x hists, curr.lookup x=some hists → PredHist.IsDisjoint hists

structure PredContext.HasHist (ctx : PredContext) (pc : Leaf → Int) : Prop where
  disjoint : ctx.outerPredHist.IsDisjoint
  at_eq : ∀ l, covers ctx.outerPredId l → ctx.outerPredHist.at? l=some (pc l)
variable {hists : PredHist} {node : PredNode} {v : Leaf → Int}
theorem PredHist.isDisjoint_of_vals (h : ∀ l, hists.vals l = if covers node l then [v l] else []) :
    hists.IsDisjoint ∧ ∀ l, hists.at? l = if covers node l then some (v l) else none := by
  constructor
  · intro l
    rw [h]
    split <;> simp
  · intro l
    rw [at?,h]
    split <;> rfl

theorem PredHist.vals_singleton (node : PredNode) (v : Int) (l : Leaf) :
    vals [(node,v)] l = if covers node l then [v] else [] := by
  rw [vals_cons,vals_nil,List.append_nil]
variable {curr : VarMap PredHist}
theorem getHist_spec {out : PredHist} (h : getHist f prevIterHist curr node x=.ok out) :
    (out.IsDisjoint ∧ ∀ l, out.at? l =
      if covers node l then some (leafHist f prevIterHist (onLeaf curr l) x) else none) ∧
    (prevIterHist.lookup x=none → ∀ l, covers node l → x ∈ f.states ∨ x ∈ f.fields ∨ (onLeaf curr l).assigned x) := by
  obtain ⟨d,hd,h⟩ := bind_eq_ok h
  have hdefault : d=leafDefault f prevIterHist x := by
    unfold defaultHist at hd
    unfold leafDefault
    cases hprev : prevIterHist.lookup x with
    | some v =>
      rw [hprev] at hd
      exact (Except.ok.inj hd).symm
    | none =>
      rw [hprev] at hd
      split_ifs at hd ⊢
      all_goals exact (Except.ok.inj hd).symm
  cases hcurr : curr.lookup x with
  | none =>
    rw [hcurr] at h
    cases h
    constructor
    · apply isDisjoint_of_vals
      intro l
      rw [vals_singleton]
      simp [leafHist,hcurr,hdefault]
    · -- without any history the default comes from a field or a state
      intro hprev l _
      unfold defaultHist at hd
      rw [hprev] at hd
      split_ifs at hd with hfield hstate hsome
      · exact .inr (.inl hfield)
      · exact .inl hstate
      · simp [hcurr] at hsome
  | some hists =>
    rw [hcurr] at h
    have hspec := getRelevantPredHist_spec h
    constructor
    · apply isDisjoint_of_vals
      intro l
      rw [(hspec l).1,hdefault]
      simp [leafHist,hcurr]
    · intro hprev l hl
      unfold defaultHist at hd
      rw [hprev] at hd
      split_ifs at hd with hfield hstate
      · exact .inr (.inl hfield)
      · exact .inl hstate
      · have hsome := (hspec l).2 (Except.ok.inj hd).symm hl
        exact .inr (.inr (by simpa [hcurr] using hsome))

theorem maxHistFrom_spec {acc out : PredHist}
    (h : maxHistFrom f prevIterHist curr node acc vars=.ok out) (hdisj : acc.IsDisjoint)
    (hacc : ∀ l, acc.at? l = if covers node l then some (v l) else none) :
    (out.IsDisjoint ∧ ∀ l, out.at? l =
      if covers node l then some (leafMax f prevIterHist (onLeaf curr l) (v l) vars) else none) ∧
    (prevIterHist=[] → ∀ l, covers node l → Readable f (onLeaf curr l).assigned vars) := by
  induction vars generalizing acc v with
  | nil =>
    cases h
    exact ⟨⟨hdisj,hacc⟩,fun _ _ _ _ hx => by cases hx⟩
  | cons x vars ih =>
    obtain ⟨hist,hhist,h⟩ := bind_eq_ok h
    obtain ⟨acc',hacc',h⟩ := bind_eq_ok h
    obtain ⟨⟨hdisj',hat'⟩,hread⟩ := getHist_spec hhist
    obtain ⟨hmax,hmaxAt⟩ := compareHist_spec hacc' hdisj hdisj'
    have hnext : ∀ l, acc'.at? l = if covers node l then
        some (max (v l) (leafHist f prevIterHist (onLeaf curr l) x)) else none := by
      intro l
      rw [hmaxAt,hacc,hat']
      split <;> rfl
    obtain ⟨hout,hrest⟩ := ih h hmax hnext
    refine ⟨hout,fun hprev l hl => ?_⟩
    intro y hy
    rcases List.mem_cons.mp hy with rfl | hy
    · exact hread (by rw [hprev]; rfl) l hl
    · exact hrest hprev l hl y hy

theorem getHistFromList_spec {out : PredHist} (h : getHistFromList f prevIterHist curr vars node=.ok out) :
    (out.IsDisjoint ∧ ∀ l, out.at? l =
      if covers node l then some (leafMax f prevIterHist (onLeaf curr l) 0 vars) else none) ∧
    (prevIterHist=[] → ∀ l, covers node l → Readable f (onLeaf curr l).assigned vars) := by
  have hzero := isDisjoint_of_vals (v := fun _ => 0) (vals_singleton node 0)
  exact maxHistFrom_spec h hzero.1 hzero.2
variable {ctx : PredContext}
theorem restoreFromStoredContext_spec {outer : AugPred} {node given : PredNode}
    (h : restoreFromStoredContext f prevIterHist curr outer node given=.ok ctx)
    (hnode : ∀ l, covers node l → covers given l) :
    ctx.outerPred=outer ∧ ctx.outerPredId=node ∧ ctx.HasHist (fun l => leafPred f prevIterHist (onLeaf curr l) outer) ∧
      (prevIterHist=[] → ∀ l, covers given l → Readable f (onLeaf curr l).assigned outer.getUsedVars) := by
  obtain ⟨hist,hhist,h⟩ := bind_eq_ok h
  cases h
  obtain ⟨⟨hdisj,hat⟩,hread⟩ := getHistFromList_spec hhist
  refine ⟨rfl,rfl,⟨hdisj,fun l hl => ?_⟩,hread⟩
  rw [hat,hnode l hl]
  rfl

/-- A part of the visitor under `node`: on the leaves under the node it makes `step` of the
histories, `mark` of the assigned variables, and it finds that `defined` holds there; other leaves
are left alone. -/
structure Visits (prevIterHist : VarMap Int) (node : PredNode) (curr curr' : VarMap PredHist)
    (step : Leaf → LeafHist → LeafHist) (mark : Leaf → Assigned → Assigned)
    (defined : Leaf → Assigned → Prop) : Prop where
  disjoint : AllDisjoint curr'
  onLeaf_eq : ∀ l, onLeaf curr' l = if covers node l then step l (onLeaf curr l) else onLeaf curr l
  assigned_eq : ∀ l m, (step l m).assigned=mark l m.assigned
  defined : prevIterHist=[] → ∀ l, covers node l → defined l (onLeaf curr l).assigned
namespace Visits
variable {node : PredNode} {curr mid curr' : VarMap PredHist}
  {step step' : Leaf → LeafHist → LeafHist} {mark mark' : Leaf → Assigned → Assigned}
  {defined defined' : Leaf → Assigned → Prop}

theorem of_covers (h : Visits prevIterHist node curr curr' step mark defined) {l : Leaf}
    (hl : covers node l) : onLeaf curr' l=step l (onLeaf curr l) := by
  rw [h.onLeaf_eq,if_pos hl]

theorem refl (hdisj : AllDisjoint curr) :
    Visits prevIterHist node curr curr (fun _ m => m) (fun _ a => a) (fun _ _ => True) :=
  ⟨hdisj,fun l => by split <;> rfl,fun _ _ => rfl,fun _ _ _ => trivial⟩

theorem trans (h : Visits prevIterHist node curr mid step mark defined)
    (h' : Visits prevIterHist node mid curr' step' mark' defined') :
    Visits prevIterHist node curr curr' (fun l m => step' l (step l m))
      (fun l a => mark' l (mark l a)) (fun l a => defined l a ∧ defined' l (mark l a)) := by
  refine ⟨h'.disjoint,fun l => ?_,fun l m => ?_,fun hprev l hl => ⟨h.defined hprev l hl,?_⟩⟩
  · rw [h'.onLeaf_eq,h.onLeaf_eq]
    split <;> rfl
  · rw [h'.assigned_eq,h.assigned_eq]
  · rw [← h.assigned_eq,← h.of_covers hl]
    exact h'.defined hprev l hl

theorem branch (h : Visits prevIterHist (true::node) curr mid step mark defined)
    (h' : Visits prevIterHist (false::node) mid curr' step' mark' defined') :
    Visits prevIterHist node curr curr' (fun l m => if l node.length then step l m else step' l m)
      (fun l a => if l node.length then mark l a else mark' l a)
      (fun l a => (l node.length → defined l a) ∧ (l node.length=false → defined' l a)) := by
  have hskip {l : Leaf} (hd : l node.length=false) : onLeaf mid l=onLeaf curr l := by
    rw [h.onLeaf_eq,covers,hd]
    rfl
  refine ⟨h'.disjoint,fun l => ?_,fun l m => ?_,fun hprev l hl => ⟨fun hd => ?_,fun hd => ?_⟩⟩
  · rw [h'.onLeaf_eq,covers]
    cases hd : l node.length with
    | true =>
      rw [h.onLeaf_eq,covers,hd]
      simp
    | false =>
      rw [hskip hd]
      simp
  · split
    · exact h.assigned_eq l m
    · exact h'.assigned_eq l m
  · exact h.defined hprev l (by rw [covers,hd,hl]; rfl)
  · rw [← hskip hd]
    exact h'.defined hprev l (by rw [covers,hd,hl]; rfl)

theorem congr (h : Visits prevIterHist node curr curr' step mark defined)
    (hstep : ∀ l, covers node l → step' l (onLeaf curr l)=step l (onLeaf curr l))
    (hmark : ∀ l m, (step' l m).assigned=mark l m.assigned) :
    Visits prevIterHist node curr curr' step' mark defined := by
  refine ⟨h.disjoint,fun l => ?_,hmark,h.defined⟩
  by_cases hl : covers node l
  · rw [h.onLeaf_eq,if_pos hl,if_pos hl,hstep l hl]
  · rw [h.onLeaf_eq,if_neg hl,if_neg hl]

theorem weaken (h : Visits prevIterHist node curr curr' step mark defined)
    (hdefined : prevIterHist=[] → ∀ l, covers node l →
      defined l (onLeaf curr l).assigned → defined' l (onLeaf curr l).assigned) :
    Visits prevIterHist node curr curr' step mark defined' :=
  ⟨h.disjoint,h.onLeaf_eq,h.assigned_eq,fun hprev l hl => hdefined hprev l hl (h.defined hprev l hl)⟩
end Visits

theorem onLeaf_put (hat : ∀ l, hists.at? l = if covers node l then some (v l) else onLeaf curr l x) (l : Leaf) :
    onLeaf (curr.put x hists) l =
      if covers node l then update (onLeaf curr l) x (some (v l)) else onLeaf curr l := by
  funext y
  by_cases hy : y=x
  · subst hy
    rw [onLeaf,VarMap.lookup_put,if_pos rfl,Option.bind_some,hat]
    split <;> simp
  · rw [onLeaf,VarMap.lookup_put,if_neg hy]
    split <;> simp [hy]

theorem AllDisjoint.put (h : AllDisjoint curr) (hdisj : hists.IsDisjoint) : AllDisjoint (curr.put x hists) := by
  intro y hists' hy
  rw [VarMap.lookup_put] at hy
  split_ifs at hy with hyx
  · cases hy
    exact hdisj
  · exact h y hists' hy
variable {pc : Leaf → Int} {curr curr' : VarMap PredHist}
theorem visitPrimitiveHist_spec (hctx : ctx.HasHist pc) (hdisj : AllDisjoint curr) {p : Primitive}
    (h : visitPrimitiveHist f prevIterHist ctx curr p=.ok curr') :
    Visits prevIterHist ctx.outerPredId curr curr'
      (fun l m => leafPrimitive f prevIterHist (pc l) m p) (fun _ a => assignedPrimitive a p)
      (fun _ a => PrimitivesDefined f a [p]) := by
  have hmark (l : Leaf) (m : LeafHist) : (leafPrimitive f prevIterHist (pc l) m p).assigned =
      assignedPrimitive m.assigned p :=
    assigned_leafPrimitive (pc l) m p
  cases p with
  | skip | emit =>
    cases h
    exact .refl hdisj
  | assign x e =>
    obtain ⟨exprHist,hexpr,h⟩ := bind_eq_ok h
    obtain ⟨outerHist,houter,h⟩ := bind_eq_ok h
    obtain ⟨assignHist,hassign,h⟩ := bind_eq_ok h
    obtain ⟨⟨hexprDisj,hexprAt⟩,hread⟩ := getHistFromList_spec hexpr
    have houterVals (l : Leaf) : outerHist.vals l =
        if covers ctx.outerPredId l then [pc l] else [] := by
      rw [(getRelevantPredHist_spec houter l).1]
      by_cases hl : covers ctx.outerPredId l
      · simp [hl,hctx.at_eq l hl]
      · simp [hl]
    have houterSpec := isDisjoint_of_vals houterVals
    obtain ⟨hassignDisj,hassignAt⟩ := compareHist_spec hassign hexprDisj houterSpec.1
    have hvalue (l : Leaf) : assignHist.at? l = if covers ctx.outerPredId l then
        some (max (leafMax f prevIterHist (onLeaf curr l) 0 (AugExpr.ofExpr e).getUsedVars) (pc l))
        else none := by
      rw [hassignAt,hexprAt,houterSpec.2]
      split <;> rfl
    have hdefined : prevIterHist=[] → ∀ l, covers ctx.outerPredId l →
        PrimitivesDefined f (onLeaf curr l).assigned [.assign x e] :=
      fun hprev l hl => ⟨hread hprev l hl,trivial⟩
    cases hcurr : curr.lookup x with
    | none =>
      rw [hcurr] at h
      cases h
      refine ⟨hdisj.put hassignDisj,onLeaf_put fun l => ?_,hmark,hdefined⟩
      rw [hvalue]
      simp [hcurr]
    | some hists =>
      rw [hcurr] at h
      obtain ⟨newHist,hnew,h⟩ := bind_eq_ok h
      cases h
      obtain ⟨hnewDisj,hnewAt⟩ := compareHist_spec hnew (hdisj x hists hcurr) hassignDisj
      refine ⟨hdisj.put hnewDisj,onLeaf_put fun l => ?_,hmark,hdefined⟩
      rw [hnewAt,hvalue]
      cases hold : hists.at? l <;> split <;> simp [hcurr,hold,Option.merge]

theorem visitPrimitivesHist_spec (hctx : ctx.HasHist pc) (hdisj : AllDisjoint curr) {ps : List Primitive}
    (h : visitPrimitivesHist f prevIterHist ctx curr ps=.ok curr') :
    Visits prevIterHist ctx.outerPredId curr curr'
      (fun l m => leafPrimitives f prevIterHist (pc l) m ps) (fun _ a => assignedPrimitives a ps)
      (fun _ a => PrimitivesDefined f a ps) := by
  induction ps generalizing curr with
  | nil =>
    cases h
    exact .refl hdisj
  | cons p ps ih =>
    obtain ⟨mid,hmid,h⟩ := bind_eq_ok h
    have hfirst := visitPrimitiveHist_spec hctx hdisj hmid
    apply (hfirst.trans (ih hfirst.disjoint h)).weaken
    rintro - l - ⟨hhead,htail⟩
    cases p with
    | assign x e => exact ⟨hhead.1,htail⟩
    | skip | emit => exact htail

theorem covers_of_cons {b : Bool} (l : Leaf) (h : covers (b::node) l) : covers node l := by
  rw [covers,Bool.and_eq_true] at h
  exact h.2

private theorem branch_spec {b : CodeBlock} {outer : AugPred} {side : Bool}
    (hctx : restoreFromStoredContext f prevIterHist curr outer (side::node) node=.ok ctx)
    (hbody : ∀ pc, ctx.HasHist pc → Visits prevIterHist ctx.outerPredId curr curr'
      (fun l m => leafBlock f prevIterHist l b ctx.outerPred (pc l) ctx.outerPredId.length m)
      (fun l a => assignedBlock l b ctx.outerPredId.length a)
      (fun l a => BlockDefined f l b ctx.outerPred ctx.outerPredId.length a)) :
    Visits prevIterHist (side::node) curr curr'
      (fun l m => leafBlock f prevIterHist l b outer (leafPred f prevIterHist m outer) (node.length+1) m)
      (fun l a => assignedBlock l b (node.length+1) a)
      (fun l a => BlockDefined f l b outer (node.length+1) a) ∧
    (prevIterHist=[] → ∀ l, covers node l → Readable f (onLeaf curr l).assigned outer.getUsedVars) := by
  obtain ⟨hpred,hnode,hhas,hread⟩ := restoreFromStoredContext_spec hctx covers_of_cons
  have hvisit := hbody _ hhas
  rw [hpred,hnode] at hvisit
  refine ⟨hvisit.congr (fun l _ => rfl) fun l m => ?_,hread⟩
  exact assigned_leafBlock l b outer _ _ m

theorem visitCodeBlockHist_spec (b : CodeBlock) (hctx : ctx.HasHist pc) (hdisj : AllDisjoint curr)
    (h : visitCodeBlockHist f prevIterHist b ctx curr=.ok curr') :
    Visits prevIterHist ctx.outerPredId curr curr'
      (fun l m => leafBlock f prevIterHist l b ctx.outerPred (pc l) ctx.outerPredId.length m)
      (fun l a => assignedBlock l b ctx.outerPredId.length a)
      (fun l a => BlockDefined f l b ctx.outerPred ctx.outerPredId.length a) := by
  induction b generalizing ctx pc curr curr' with
  | plain ps => exact visitPrimitivesHist_spec hctx hdisj h
  | ifThen pre p thn post ih =>
    obtain ⟨mid₁,hmid₁,h⟩ := bind_eq_ok h
    obtain ⟨ctxIf,hctxIf,h⟩ := bind_eq_ok h
    obtain ⟨mid₂,hmid₂,h⟩ := bind_eq_ok h
    have hpre := visitPrimitivesHist_spec hctx hdisj hmid₁
    obtain ⟨hthn,hread⟩ := branch_spec hctxIf (fun _ hhas => ih hhas hpre.disjoint hmid₂)
    have hpost := visitPrimitivesHist_spec hctx hthn.disjoint h
    apply ((hpre.trans (hthn.branch (.refl hthn.disjoint))).trans hpost).weaken
    rintro hprev l hl ⟨⟨hdpre,hdbranch⟩,hdpost⟩
    have hreadable := hread hprev l hl
    rw [hpre.of_covers hl,hpre.assigned_eq] at hreadable
    exact ⟨hdpre,hreadable,hdbranch.1,hdpost⟩
  | ifElse pre p thn els post ihthn ihels =>
    obtain ⟨mid₁,hmid₁,h⟩ := bind_eq_ok h
    obtain ⟨ctxIf,hctxIf,h⟩ := bind_eq_ok h
    obtain ⟨mid₂,hmid₂,h⟩ := bind_eq_ok h
    obtain ⟨ctxElse,hctxElse,h⟩ := bind_eq_ok h
    obtain ⟨mid₃,hmid₃,h⟩ := bind_eq_ok h
    have hpre := visitPrimitivesHist_spec hctx hdisj hmid₁
    obtain ⟨hthn,hread⟩ := branch_spec hctxIf (fun _ hhas => ihthn hhas hpre.disjoint hmid₂)
    obtain ⟨hels,-⟩ := branch_spec hctxElse (fun _ hhas => ihels hhas hthn.disjoint hmid₃)
    have hpost := visitPrimitivesHist_spec hctx hels.disjoint h
    apply ((hpre.trans (hthn.branch hels)).trans hpost).weaken
    rintro hprev l hl ⟨⟨hdpre,hdbranch⟩,hdpost⟩
    have hreadable := hread hprev l hl
    rw [hpre.of_covers hl,hpre.assigned_eq] at hreadable
    exact ⟨hdpre,hreadable,hdbranch.1,hdbranch.2,hdpost⟩
end Laws
end P4Benchmarks.Marple
