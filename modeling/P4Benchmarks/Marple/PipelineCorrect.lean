import P4Benchmarks.Marple.Pipeline
/-! # When stitching is right -/
namespace P4Benchmarks.Marple
open Lib Outcome Relation List PipeConstructor PipeStage
attribute [local simp] init
namespace Prog
variable (prog : Prog)
def Dep (o x : String) : Prop := o≠pktLogStr ∧ ∃ op, prog.depTable x=some op ∧ o ∈ op.operands
def NoSelfDependence : Prop := ∀ x, ReflTransGen prog.Dep x prog.lastAssignedId → ¬ TransGen prog.Dep x x

/-- Each stream that the last assigned one needs has one stage, after those of its operands. -/
structure Stitched (pipe : List PipeStage) : Prop where
  nodup : (pipe.map pipeName).Nodup
  mem_iff : ∀ x, x ∈ pipe.map pipeName ↔ ReflTransGen prog.Dep x prog.lastAssignedId
  operands_before : ∀ before s after, pipe=before++s::after → ∀ o, prog.Dep o s.pipeName → o ∈ before.map pipeName

/-- Both traversals terminate, the second one with a good list of stages unless it refuses the
fields that some query uses. -/
def Stitches (good : List PipeStage → Prop) : Prop :=
  (∃ depth tree, (prog.buildExprTree depth prog.lastAssignedId).Returns tree) ∧
    ∃ depth, (∃ pipe, (prog.stitchPipe depth).Returns pipe ∧ good pipe) ∨ (prog.stitchPipe depth).Throws .runtime

def FieldsRefused : Prop := ∃ depth, (prog.stitchPipe depth).Throws .runtime
variable {prog} {x : String}
theorem depTable_eq_some_iff {op : Operation} : prog.depTable x=some op ↔
    ∃ line s, prog.LastAssigned x line s ∧ op=s.query.getOperation :=
  tabulate_eq_some_iff

theorem queryToPipe_eq_some_iff {stage : PipeStage} : prog.queryToPipe x=some stage ↔
      ∃ line s, prog.LastAssigned x line s ∧ stage=prog.pipeStage line s :=
  tabulate_eq_some_iff

@[simp] theorem pipeStage_line (line : Nat) (s : StreamStmt) : (prog.pipeStage line s).line=line := by
  unfold pipeStage
  split <;> rfl

@[simp] theorem pipeStage_pipeName (line : Nat) (s : StreamStmt) : (prog.pipeStage line s).pipeName=s.stream := by
  unfold pipeStage
  split <;> rfl

structure Valid (prog : Prog) (pc : PipeConstructor) : Prop where
  packetLog : ∃ fields, pc.schema pktLogStr=some fields
  schema : ∀ x ∈ pc.visited, ∃ fields, pc.schema x=some fields
  closed : ∀ x ∈ pc.visited, ∀ o, prog.Dep o x → o ∈ pc.visited
  acc : ∀ x ∈ pc.visited, Acc prog.Dep x

theorem valid_init (prog : Prog) : prog.Valid .init where
  packetLog := ⟨packetLogFields,by simp⟩
  schema := by simp
  closed := by simp
  acc := by simp

structure Extends (prog : Prog) (roots : List String) (pc : PipeConstructor)
    (pipe : List PipeStage) (pc' : PipeConstructor) : Prop where
  valid : prog.Valid pc'
  visited_iff : ∀ x, x ∈ pc'.visited ↔ x ∈ pc.visited ∨ x ∈ pipe.map pipeName
  fresh : ∀ x ∈ pipe.map pipeName, x ∉ pc.visited
  nodup : (pipe.map pipeName).Nodup
  needed : ∀ x ∈ pipe.map pipeName, ∃ root ∈ roots, ReflTransGen prog.Dep x root
  operands_before : ∀ before s after, pipe=before++s::after → ∀ o, prog.Dep o s.pipeName →
    o ∈ pc.visited ∨ o ∈ before.map pipeName
  stages : ∀ s ∈ pipe, ∃ t, prog.LastAssigned s.pipeName s.line t
variable {pc : PipeConstructor}
theorem Extends.refl (h : prog.Valid pc) (roots : List String) : prog.Extends roots pc [] pc where
  valid := h
  visited_iff := by simp
  fresh := by simp
  nodup := by simp
  needed := by simp
  operands_before := by simp
  stages := by simp
variable {pc pc' : PipeConstructor} {pipe : List PipeStage}
theorem Extends.mono {roots roots' : List String} (h : prog.Extends roots pc pipe pc')
    (hroots : ∀ root ∈ roots, ∃ root' ∈ roots', ReflTransGen prog.Dep root root') :
    prog.Extends roots' pc pipe pc' where
  __ := h
  needed := by
    intro x hx
    obtain ⟨root,hroot,hpath⟩ := h.needed x hx
    obtain ⟨root',hroot',hpath'⟩ := hroots root hroot
    exact ⟨root',hroot',hpath.trans hpath'⟩

theorem Extends.trans {roots : List String} {pc pc' pc'' : PipeConstructor}
    {pipe pipe' : List PipeStage} (h : prog.Extends roots pc pipe pc')
    (h' : prog.Extends roots pc' pipe' pc'') : prog.Extends roots pc (pipe++pipe') pc'' where
  valid := h'.valid
  visited_iff := by
    intro x
    rw [h'.visited_iff,h.visited_iff,map_append,mem_append,or_assoc]
  fresh := by
    intro x hx hvisited
    rw [map_append,mem_append] at hx
    rcases hx with hx | hx
    · exact h.fresh x hx hvisited
    · exact h'.fresh x hx ((h.visited_iff x).mpr (.inl hvisited))
  nodup := by
    rw [map_append,nodup_append']
    refine ⟨h.nodup,h'.nodup,fun x hx hx' => ?_⟩
    exact h'.fresh x hx' ((h.visited_iff x).mpr (.inr hx))
  needed := by
    intro x hx
    rw [map_append,mem_append] at hx
    exact hx.elim (h.needed x) (h'.needed x)
  operands_before := by
    intro before s after heq o ho
    rcases append_eq_append_iff.mp heq with ⟨mid,rfl,hmid⟩ | ⟨mid,rfl,hmid⟩
    · rcases h'.operands_before mid s after hmid o ho with hvisited | hbefore
      · rcases (h.visited_iff o).mp hvisited with hold | hnew
        · exact .inl hold
        · exact .inr (by simp only [map_append,mem_append]; exact .inl hnew)
      · exact .inr (by simp only [map_append,mem_append]; exact .inr hbefore)
    · cases mid with
      | nil =>
        rcases h'.operands_before [] s after hmid.symm o ho with hvisited | hbefore
        · simpa using (h.visited_iff o).mp hvisited
        · cases hbefore
      | cons m mid =>
        cases hmid
        exact h.operands_before before s mid rfl o ho
  stages := by
    intro s hs
    rw [mem_append] at hs
    exact hs.elim (h.stages s) (h'.stages s)

def Sound (prog : Prog) (getPipes : String → PipeConstructor → Outcome JavaError (List PipeStage × PipeConstructor)) :
    Prop :=
  ∀ x pc pipe pc', prog.Valid pc → x ∉ pc.visited → (getPipes x pc).Returns (pipe,pc') →
    prog.Extends [x] pc pipe pc' ∧ x ∈ pc'.visited

def streams (operands : List String) : List String := operands.filter (· ≠ pktLogStr)
variable {getPipes : String → PipeConstructor → Outcome JavaError (List PipeStage × PipeConstructor)}
theorem visitOperand_sound (hsound : prog.Sound getPipes) {operand : String} (hpc : prog.Valid pc)
    (h : (visitOperand getPipes operand pc).Returns (pipe,pc')) :
    prog.Extends (streams [operand]) pc pipe pc' ∧ (operand≠pktLogStr → operand ∈ pc'.visited) := by
  unfold visitOperand at h
  split_ifs at h with hnew
  · obtain ⟨hext,hvisited⟩ := hsound operand pc pipe pc' hpc hnew.2 h
    have hstreams : streams [operand]=[operand] := by simp [streams,hnew.1]
    exact ⟨by rwa [hstreams],fun _ => hvisited⟩
  · obtain ⟨rfl,rfl⟩ := Prod.mk.inj (returns_pure.mp h)
    refine ⟨.refl hpc _,fun hne => ?_⟩
    by_contra hnot
    exact hnew ⟨hne,hnot⟩

theorem visitOperands_sound (hsound : prog.Sound getPipes) {operands : List String} {fields : List String}
    (hpc : prog.Valid pc) (h : (visitOperands getPipes operands pc).Returns (pipe,fields,pc')) :
    prog.Extends (streams operands) pc pipe pc' ∧ ∀ operand ∈ operands, operand≠pktLogStr → operand ∈ pc'.visited := by
  induction operands generalizing pc pipe fields with
  | nil =>
    obtain ⟨rfl,-,rfl⟩ : []=pipe ∧ []=fields ∧ pc=pc' := by simpa [visitOperands] using h
    exact ⟨.refl hpc _,by simp⟩
  | cons operand operands ih =>
    obtain ⟨⟨pipe₁,pc₁⟩,hfirst,h⟩ := returns_of_bind h
    obtain ⟨hext,hvisited⟩ := visitOperand_sound hsound hpc hfirst
    dsimp only at h
    cases hschema : pc₁.schema operand with
    | none =>
      rw [hschema] at h
      exact absurd h not_returns_throw
    | some fields₁ =>
      rw [hschema] at h
      obtain ⟨⟨pipe₂,fields₂,pc₂⟩,hrest,h⟩ := returns_of_bind h
      obtain ⟨rfl,-,rfl⟩ : pipe₁++pipe₂=pipe ∧ fields₁++fields₂=fields ∧ pc₂=pc' := by simpa using h
      obtain ⟨hext',hvisited'⟩ := ih hext.valid hrest
      have hsub : ∀ ops ⊆ operand::operands, ∀ root ∈ streams ops,
          ∃ root' ∈ streams (operand::operands), ReflTransGen prog.Dep root root' :=
        fun ops hops root hroot => ⟨root,filter_subset _ hops hroot,.refl⟩
      refine ⟨(hext.mono (hsub _ (by simp))).trans (hext'.mono (hsub _ (by simp))),fun o ho hne => ?_⟩
      rcases mem_cons.mp ho with rfl | ho
      · exact (hext'.visited_iff o).mpr (.inl (hvisited hne))
      · exact hvisited' o ho hne

theorem not_transGen_of_acc (h : Acc prog.Dep x) : ¬ TransGen prog.Dep x x := by
  intro hcycle
  induction h with
  | intro x _ ih =>
    obtain ⟨y,hxy,hyx⟩ := TransGen.tail'_iff.mp hcycle
    exact ih y hyx (.head' hyx hxy)

theorem extends_single {stage : PipeStage} {t : StreamStmt}
    (h : prog.Valid pc) (hdep : ∀ o, prog.Dep o x → o ∈ pc.visited) (hx : x ∉ pc.visited)
    (hname : stage.pipeName=x) (hlast : prog.LastAssigned x stage.line t)
    (fields : List String) :
    prog.Extends [x] pc [stage] ⟨x::pc.visited,Function.update pc.schema x (some fields)⟩ where
  valid := by
    refine ⟨?_,fun y hy => ?_,fun y hy o ho => ?_,fun y hy => ?_⟩
    · by_cases hT : pktLogStr=x
      · exact ⟨fields,by simp [hT]⟩
      · obtain ⟨fields',hfields⟩ := h.packetLog
        exact ⟨fields',by simpa [hT] using hfields⟩
    · by_cases hyx : y=x
      · exact ⟨fields,by simp [hyx]⟩
      · obtain ⟨fields',hfields⟩ := h.schema y ((mem_cons.mp hy).resolve_left hyx)
        exact ⟨fields',by simpa [hyx] using hfields⟩
    · rcases mem_cons.mp hy with rfl | hy
      · exact mem_cons_of_mem _ (hdep o ho)
      · exact mem_cons_of_mem _ (h.closed y hy o ho)
    · rcases mem_cons.mp hy with rfl | hy
      · exact .intro y fun o ho => h.acc o (hdep o ho)
      · exact h.acc y hy
  visited_iff := by simp [hname,or_comm]
  fresh := by simpa [hname] using hx
  nodup := by simp
  needed := by simpa [hname] using ReflTransGen.refl
  operands_before := by
    intro before s after heq o ho
    obtain ⟨rfl,rfl,-⟩ : before=[] ∧ s=stage ∧ after=[] := by
      cases before with
      | nil => simpa [eq_comm] using heq
      | cons b before => simp at heq
    exact .inl (hdep o (hname ▸ ho))
  stages := by
    intro s hs
    rw [mem_singleton.mp hs,hname]
    exact ⟨t,hlast⟩

theorem getPipes_sound (depth : Nat) : prog.Sound (prog.getPipes depth) := by
  induction depth with
  | zero => exact fun x pc pipe pc' _ _ h => absurd h not_returns_tooDeep
  | succ depth ih =>
    intro x pc pipe pc' hpc hx h
    rw [getPipes] at h
    cases hop : prog.depTable x with
    | none =>
      rw [hop] at h
      exact absurd h not_returns_throw
    | some op =>
      obtain ⟨line,t,hlast,-⟩ := depTable_eq_some_iff.mp hop
      have hstage : prog.queryToPipe x=some (prog.pipeStage line t) :=
        queryToPipe_eq_some_iff.mpr ⟨line,t,hlast,rfl⟩
      rw [hop,hstage] at h
      obtain ⟨⟨pipe₁,fields,pc₁⟩,hoperands,h⟩ := returns_of_bind h
      obtain ⟨hext,hvisited⟩ := visitOperands_sound ih hpc hoperands
      dsimp only at h
      split_ifs at h
      · obtain ⟨rfl,rfl⟩ := Prod.mk.inj (returns_pure.mp h)
        have hdep : ∀ o, prog.Dep o x → o ∈ pc₁.visited := by
          rintro o ⟨hne,op',hop',ho⟩
          obtain rfl : op=op' := Option.some.inj (hop.symm.trans hop')
          exact hvisited o ho hne
        have hroots : ∀ root ∈ streams op.operands, prog.Dep root x := by
          intro root hroot
          obtain ⟨hmem,hne⟩ : root ∈ op.operands ∧ root≠pktLogStr := by simpa [streams] using hroot
          exact ⟨hne,op,hop,hmem⟩
        -- a stream that an operand of `x` needs is not `x` itself
        have hfresh : x ∉ pc₁.visited := by
          rw [hext.visited_iff]
          rintro (hold | hnew)
          · exact hx hold
          · obtain ⟨root,hroot,hpath⟩ := hext.needed x hnew
            have hacc : Acc prog.Dep x := .intro x fun o ho => hext.valid.acc o (hdep o ho)
            exact not_transGen_of_acc hacc (.tail' hpath (hroots root hroot))
        have hline : prog.LastAssigned x (prog.pipeStage line t).line t := by simpa using hlast
        have hname : (prog.pipeStage line t).pipeName=x := by simp [hlast.stream]
        refine ⟨(hext.mono fun root hroot => ?_).trans ?_,mem_cons_self⟩
        · exact ⟨x,by simp,.single (hroots root hroot)⟩
        · exact extends_single (t := t) hext.valid hdep hfresh (by exact hname) (by exact hline) _
      · exact absurd h not_returns_throw

theorem stitched_of_returns {depth : Nat} (h : (prog.stitchPipe depth).Returns pipe) :
    prog.Stitched pipe ∧ Acc prog.Dep prog.lastAssignedId ∧ ∀ s ∈ pipe, ∃ t, prog.LastAssigned s.pipeName s.line t := by
  obtain ⟨⟨pipe',pc⟩,hcall,h⟩ := returns_of_bind h
  obtain rfl : pipe'=pipe := returns_pure.mp h
  obtain ⟨hext,hvisited⟩ := getPipes_sound depth prog.lastAssignedId .init pipe' pc (valid_init prog) (by simp) hcall
  have hiff : ∀ x, x ∈ pc.visited ↔ x ∈ pipe'.map pipeName := by
    intro x
    rw [hext.visited_iff]
    simp
  refine ⟨⟨hext.nodup,fun x => ⟨fun hx => ?_,fun hx => ?_⟩,fun before s after heq o ho => ?_⟩,
    hext.valid.acc _ hvisited,hext.stages⟩
  · obtain ⟨root,hroot,hpath⟩ := hext.needed x hx
    rwa [mem_singleton.mp hroot] at hpath
  · rw [← hiff]
    induction hx using ReflTransGen.head_induction_on with
    | refl => exact hvisited
    | head hdep _ ih => exact hext.valid.closed _ ih _ hdep
  · have hbefore := hext.operands_before before s after heq o ho
    simpa using hbefore

def Ends (x : Outcome JavaError (List PipeStage × PipeConstructor)) : Prop :=
  x.Terminates ∧ ∀ e, x.Throws e → e=.runtime

theorem visitOperands_ends (hsound : prog.Sound getPipes) {operands : List String} (hpc : prog.Valid pc)
    (hends : ∀ operand ∈ operands, operand≠pktLogStr → ∀ pc, prog.Valid pc →
      operand ∉ pc.visited → Ends (getPipes operand pc)) :
    (visitOperands getPipes operands pc).Terminates ∧
      ∀ e, (visitOperands getPipes operands pc).Throws e → e=.runtime := by
  induction operands generalizing pc with
  | nil => exact ⟨terminates_pure _,fun e h => absurd h not_throws_pure⟩
  | cons operand operands ih =>
    have hfirst : Ends (visitOperand getPipes operand pc) := by
      unfold visitOperand
      split_ifs with hnew
      · exact hends operand (by simp) hnew.1 pc hpc hnew.2
      · exact ⟨terminates_pure _,fun e h => absurd h not_throws_pure⟩
    have hschema : ∀ pipe₁ pc₁, (visitOperand getPipes operand pc).Returns (pipe₁,pc₁) →
        prog.Valid pc₁ ∧ ∃ fields, pc₁.schema operand=some fields := by
      intro pipe₁ pc₁ hret
      obtain ⟨hext,hvisited⟩ := visitOperand_sound hsound hpc hret
      refine ⟨hext.valid,?_⟩
      by_cases hT : operand=pktLogStr
      · exact hT ▸ hext.valid.packetLog
      · exact hext.valid.schema operand (hvisited hT)
    have hrest := fun pc₁ (hpc₁ : prog.Valid pc₁) =>
      ih hpc₁ fun o ho => hends o (mem_cons_of_mem _ ho)
    constructor
    · refine terminates_bind hfirst.1 fun ⟨pipe₁,pc₁⟩ hret => ?_
      obtain ⟨hpc₁,fields,hfields⟩ := hschema pipe₁ pc₁ hret
      dsimp only
      rw [hfields]
      exact terminates_bind (hrest pc₁ hpc₁).1 fun _ _ => terminates_pure _
    · intro e he
      rcases throws_of_bind he with he | ⟨⟨pipe₁,pc₁⟩,hret,he⟩
      · exact hfirst.2 e he
      · obtain ⟨hpc₁,fields,hfields⟩ := hschema pipe₁ pc₁ hret
        dsimp only at he
        rw [hfields] at he
        rcases throws_of_bind he with he | ⟨_,_,he⟩
        · exact (hrest pc₁ hpc₁).2 e he
        · exact absurd he not_throws_pure

private theorem exists_uniform_depth {α : Type} {P : Nat → α → Prop} (xs : List α)
    (h : ∀ x ∈ xs, ∃ n, ∀ depth, n≤depth → P depth x) : ∃ n, ∀ depth, n≤depth → ∀ x ∈ xs, P depth x := by
  induction xs with
  | nil => exact ⟨0,by simp⟩
  | cons x xs ih =>
    obtain ⟨n,hn⟩ := h x (by simp)
    obtain ⟨m,hm⟩ := ih fun y hy => h y (mem_cons_of_mem _ hy)
    refine ⟨max n m,fun depth hdepth y hy => ?_⟩
    rcases mem_cons.mp hy with rfl | hy
    · exact hn depth (by omega)
    · exact hm depth (by omega) y hy

theorem depTable_operand (hprog : prog.OperandsAssigned) {x o : String} {op : Operation} (hop : prog.depTable x=some op)
    (ho : o ∈ op.operands) (hne : o≠pktLogStr) : ∃ op', prog.depTable o=some op' := by
  obtain ⟨line,s,hlast,rfl⟩ := depTable_eq_some_iff.mp hop
  obtain ⟨j,t,-,hj,ht⟩ := (hprog line s hlast.at_line o ho).resolve_left hne
  obtain ⟨line',s',hlast'⟩ := exists_lastAssigned hj ht
  exact ⟨_,depTable_eq_some_iff.mpr ⟨line',s',hlast',rfl⟩⟩

theorem getPipes_ends (hprog : prog.OperandsAssigned) (hacc : Acc prog.Dep x) (hx : ∃ op, prog.depTable x=some op) :
    ∃ n, ∀ depth, n≤depth → ∀ pc, prog.Valid pc → x ∉ pc.visited → Ends (prog.getPipes depth x pc) := by
  induction hacc with
  | intro x _ ih =>
    obtain ⟨op,hop⟩ := hx
    have hoperand : ∀ o ∈ op.operands, ∃ n, ∀ depth, n≤depth → o≠pktLogStr →
        ∀ pc, prog.Valid pc → o ∉ pc.visited → Ends (prog.getPipes depth o pc) := by
      intro o ho
      by_cases hne : o=pktLogStr
      · exact ⟨0,fun _ _ h => absurd hne h⟩
      · obtain ⟨n,hn⟩ := ih o ⟨hne,op,hop,ho⟩ (depTable_operand hprog hop ho hne)
        exact ⟨n,fun depth hdepth _ => hn depth hdepth⟩
    obtain ⟨n,hn⟩ := exists_uniform_depth op.operands hoperand
    refine ⟨n+1,fun depth hdepth pc hpc hnew => ?_⟩
    obtain ⟨depth,rfl⟩ : ∃ d, depth=d+1 := ⟨depth-1,by omega⟩
    obtain ⟨line,t,hlast,-⟩ := depTable_eq_some_iff.mp hop
    have hstage : prog.queryToPipe x=some (prog.pipeStage line t) :=
      queryToPipe_eq_some_iff.mpr ⟨line,t,hlast,rfl⟩
    obtain ⟨hterm,hthrow⟩ := visitOperands_ends (getPipes_sound depth) hpc (hn depth (by omega))
    rw [getPipes,hop,hstage]
    constructor
    · refine terminates_bind hterm fun r _ => ?_
      dsimp only
      split_ifs
      · exact terminates_pure _
      · exact terminates_throw _
    · intro e he
      rcases throws_of_bind he with he | ⟨r,_,he⟩
      · exact hthrow e he
      · dsimp only at he
        split_ifs at he
        · exact absurd he not_throws_pure
        · exact (throws_throw.mp he).symm

theorem returns_mapM {α β : Type} {f : α → Outcome JavaError β} {xs : List α}
    (h : ∀ x ∈ xs, ∃ y, (f x).Returns y) : ∃ ys, (xs.mapM f).Returns ys := by
  induction xs with
  | nil => exact ⟨[],rfl⟩
  | cons x xs ih =>
    obtain ⟨y,hy⟩ := h x (by simp)
    obtain ⟨ys,hys⟩ := ih fun x' hx' => h x' (mem_cons_of_mem _ hx')
    refine ⟨y::ys,?_⟩
    rw [mapM_cons]
    exact hy.bind (hys.bind rfl)

theorem buildExprTree_returns (hprog : prog.OperandsAssigned)
    (hacc : Acc prog.Dep x) (hx : ∃ op, prog.depTable x=some op) :
    ∃ n, ∀ depth, n≤depth → ∃ tree, (prog.buildExprTree depth x).Returns tree := by
  induction hacc with
  | intro x _ ih =>
    obtain ⟨op,hop⟩ := hx
    have hoperand : ∀ o ∈ op.operands, ∃ n, ∀ depth, n≤depth → ∃ tree, (prog.buildExprTree depth o).Returns tree := by
      intro o ho
      by_cases hne : o=pktLogStr
      · refine ⟨1,fun depth hdepth => ?_⟩
        obtain ⟨depth,rfl⟩ : ∃ d, depth=d+1 := ⟨depth-1,by omega⟩
        rw [buildExprTree,if_pos hne]
        exact ⟨_,rfl⟩
      · exact ih o ⟨hne,op,hop,ho⟩ (depTable_operand hprog hop ho hne)
    obtain ⟨n,hn⟩ := exists_uniform_depth op.operands hoperand
    refine ⟨n+1,fun depth hdepth => ?_⟩
    obtain ⟨depth,rfl⟩ : ∃ d, depth=d+1 := ⟨depth-1,by omega⟩
    rw [buildExprTree,hop]
    split_ifs
    · exact ⟨_,rfl⟩
    · obtain ⟨children,hchildren⟩ := returns_mapM (hn depth (by omega))
      exact ⟨_,hchildren.bind rfl⟩

theorem returns_of_mapM {α β : Type} {f : α → Outcome JavaError β} {xs : List α} {ys : List β}
    (h : (xs.mapM f).Returns ys) : ∀ x ∈ xs, ∃ y, (f x).Returns y := by
  induction xs generalizing ys with
  | nil => exact nofun
  | cons x xs ih =>
    rw [mapM_cons] at h
    obtain ⟨y,hy,h⟩ := returns_of_bind h
    obtain ⟨ys,hys,-⟩ := returns_of_bind h
    exact forall_mem_cons.mpr ⟨⟨y,hy⟩,ih hys⟩

theorem acc_of_buildExprTree {depth : Nat} {tree : ExprTree} (hne : x≠pktLogStr)
    (h : (prog.buildExprTree depth x).Returns tree) : Acc prog.Dep x := by
  induction depth generalizing x tree with
  | zero => exact absurd h not_returns_tooDeep
  | succ depth ih =>
    refine .intro x ?_
    rintro o ⟨ho,op,hop,hmem⟩
    rw [buildExprTree,if_neg hne,hop] at h
    obtain ⟨children,hchildren,-⟩ := returns_of_bind h
    obtain ⟨subtree,hsubtree⟩ := returns_of_mapM hchildren o hmem
    exact ih ho hsubtree

theorem finite_needed (prog : Prog) (root : String) : {x | ReflTransGen prog.Dep x root}.Finite := by
  refine (finite_toSet (root::prog.stmts.flatMap fun s => s.query.operands)).subset ?_
  intro x hx
  rcases ReflTransGen.cases_head hx with rfl | ⟨y,⟨-,op,hop,hmem⟩,-⟩
  · exact mem_cons_self
  · obtain ⟨line,s,hlast,rfl⟩ := depTable_eq_some_iff.mp hop
    exact mem_cons_of_mem _ (mem_flatMap.mpr ⟨s,mem_of_getElem? hlast.at_line,hmem⟩)

theorem acc_of_noSelfDependence (h : prog.NoSelfDependence) : Acc prog.Dep prog.lastAssignedId := by
  let Need := {x // ReflTransGen prog.Dep x prog.lastAssignedId}
  let Below : Need → Need → Prop := fun x y => TransGen prog.Dep x.1 y.1
  have : Finite Need := finite_needed prog prog.lastAssignedId
  have : Std.Irrefl Below := ⟨fun x => h x.1 x.2⟩
  have hwf : WellFounded Below := Finite.wellFounded_of_trans_of_irrefl Below
  have hacc : ∀ x : Need, Acc prog.Dep x.1 := by
    intro x
    induction x using hwf.induction with
    | _ x ih => exact .intro x.1 fun o ho => ih ⟨o,.head ho x.2⟩ (.single ho)
  exact hacc ⟨prog.lastAssignedId,.refl⟩

theorem noSelfDependence_of_acc (h : Acc prog.Dep prog.lastAssignedId) : prog.NoSelfDependence := by
  intro x hx
  refine not_transGen_of_acc ?_
  induction hx using ReflTransGen.head_induction_on with
  | refl => exact h
  | head hdep _ ih => exact ih.inv hdep

theorem lastAssigned_lastAssignedId (hstmts : prog.stmts≠[]) :
    ∃ s, prog.LastAssigned prog.lastAssignedId (prog.stmts.length-1) s := by
  refine ⟨prog.stmts.getLast hstmts,?_,?_,fun k t hk ht => ?_⟩
  · rw [← List.getLast?_eq_getElem?,List.getLast?_eq_getLast_of_ne_nil hstmts]
  · simp [lastAssignedId,List.getLast?_eq_getLast_of_ne_nil hstmts]
  · have hlt := (List.getElem?_eq_some_iff.mp ht).1
    omega

theorem stitches_of_acc (hprog : prog.OperandsAssigned) (hstmts : prog.stmts≠[])
    (hacc : Acc prog.Dep prog.lastAssignedId) {good : List PipeStage → Prop}
    (hgood : ∀ depth pipe, (prog.stitchPipe depth).Returns pipe → good pipe) : prog.Stitches good := by
  obtain ⟨s,hlast⟩ := lastAssigned_lastAssignedId hstmts
  have hop : ∃ op, prog.depTable prog.lastAssignedId=some op := ⟨_,depTable_eq_some_iff.mpr ⟨_,s,hlast,rfl⟩⟩
  obtain ⟨n,htree⟩ := buildExprTree_returns hprog hacc hop
  obtain ⟨m,hpipes⟩ := getPipes_ends hprog hacc hop
  refine ⟨⟨n,htree n le_rfl⟩,m,?_⟩
  obtain ⟨hterm,hthrow⟩ := hpipes m le_rfl .init (valid_init prog) (by simp)
  obtain ⟨⟨pipe,pc⟩,hret⟩ | ⟨e,he⟩ := hterm.cases
  · have hpipe : (prog.stitchPipe m).Returns pipe := hret.bind rfl
    exact .inl ⟨pipe,hpipe,hgood m pipe hpipe⟩
  · obtain rfl := hthrow e he
    exact .inr (he.bind _)

theorem Stitches.returns {good : List PipeStage → Prop} (h : prog.Stitches good) (hfields : ¬ prog.FieldsRefused) :
    ∃ depth pipe, (prog.stitchPipe depth).Returns pipe ∧ good pipe := by
  obtain ⟨-,depth,⟨pipe,hret,hpipe⟩ | hthrow⟩ := h
  · exact ⟨depth,pipe,hret,hpipe⟩
  · exact absurd ⟨depth,hthrow⟩ hfields
end Prog
end P4Benchmarks.Marple
