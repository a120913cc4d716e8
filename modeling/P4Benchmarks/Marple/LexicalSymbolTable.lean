import P4Benchmarks.Marple.Groupby
/-!
# Define before use

The table of the enclosing scope is saved before an `if` and restored after it, but not between the
two branches, so the else branch sees what the if branch defines.
-/
namespace P4Benchmarks.Marple
open List CodeBlock
def SymTab.get (symTab : SymTab) (x : String) : Option AggFunVarType :=
  (symTab.find? fun e => e.1==x).map Prod.snd

structure LexicalSymbolTable where
  (outerSymTable globalSymTable : SymTab)
namespace LexicalSymbolTable
variable (v : LexicalSymbolTable)
def put (x : String) (type : AggFunVarType) : LexicalSymbolTable where
  outerSymTable := (x,type)::v.outerSymTable
  globalSymTable := (x,type)::v.globalSymTable

def initStates (states : List String) : LexicalSymbolTable := states.foldl (fun v state => v.put state .state) v

def initFields (v : LexicalSymbolTable) : List String → Except JavaError LexicalSymbolTable
  | [] => .ok v
  | field::fields =>
    if v.outerSymTable.containsKey field then .error .runtime
    else initFields (v.put field .field) fields

def initSymTable (f : AggFun) : Except JavaError LexicalSymbolTable :=
  initFields (initStates ⟨[],[]⟩ f.states) f.fields

def visitPrimitive : Primitive → Except JavaError LexicalSymbolTable
  | .assign definedVar e =>
    if (AugExpr.ofExpr e).getUsedVars.any fun usedVar => !v.outerSymTable.containsKey usedVar then
      .error .runtime
    else if !v.outerSymTable.containsKey definedVar then .ok (v.put definedVar .fnVar)
    else if v.outerSymTable.get definedVar=some .field then .error .runtime
    else .ok v
  | .skip => .ok v
  | .emit => .ok v

def visitPrimitives (v : LexicalSymbolTable) : List Primitive → Except JavaError LexicalSymbolTable
  | [] => .ok v
  | p::ps => do visitPrimitives (← v.visitPrimitive p) ps

def checkPred (p : Predicate) : Except JavaError Unit :=
  if (AugPred.ofPredicate p).getUsedVars.any fun usedVar => !v.outerSymTable.containsKey usedVar
  then .error .runtime
  else .ok ()

def restore (v old : LexicalSymbolTable) : LexicalSymbolTable := { v with outerSymTable := old.outerSymTable }

def visitCodeBlock : CodeBlock → LexicalSymbolTable → Except JavaError LexicalSymbolTable
  | .plain ps, v => v.visitPrimitives ps
  | .ifThen pre p thn post, v => do
    let old ← v.visitPrimitives pre
    old.checkPred p
    let v ← visitCodeBlock thn old
    (v.restore old).visitPrimitives post
  | .ifElse pre p thn els post, v => do
    let old ← v.visitPrimitives pre
    old.checkPred p
    let v ← visitCodeBlock thn old
    let v ← visitCodeBlock els v
    (v.restore old).visitPrimitives post

def visitAggFun (f : AggFun) : Except JavaError SymTab := do
  let v ← initSymTable f
  let v ← visitCodeBlock f.body v
  .ok v.globalSymTable
end LexicalSymbolTable

inductive Access where
  | read (x : String)
  | write (x : String)
deriving DecidableEq

@[local simp] def Primitive.accesses : Primitive → List Access
  | .assign x e => e.idents.map .read++[.write x]
  | .skip => []
  | .emit => []

def accessesOf (ps : List Primitive) : List Access := ps.flatMap Primitive.accesses
def Predicate.accesses (p : Predicate) : List Access := p.idents.map .read

def CodeBlock.paths : CodeBlock → List (List Access)
  | .plain ps => [accessesOf ps]
  | .ifThen pre p thn post => (thn.paths++[[]]).map fun t => accessesOf pre++p.accesses++t++accessesOf post
  | .ifElse pre p thn els post =>
    (thn.paths++els.paths).map fun t => accessesOf pre++p.accesses++t++accessesOf post

def AggFun.DefinesBeforeUse (f : AggFun) : Prop :=
  ∀ t ∈ f.body.paths, ∀ t₁ x t₂, t=t₁ ++ .read x::t₂ → x ∉ f.states++f.fields → .write x ∈ t₁

@[local simp] def exposedIn : List Access → List String
  | [] => []
  | .read x::t => x::exposedIn t
  | .write x::t => (exposedIn t).filter (· ≠ x)

def assignedBy (ps : List Primitive) : List String :=
  ps.filterMap fun
    | .assign x _ => some x
    | .skip => none
    | .emit => none

def CodeBlock.mustAssign : CodeBlock → List String
  | .plain ps => assignedBy ps
  | .ifThen pre _ _ post => assignedBy pre++assignedBy post
  | .ifElse pre _ thn els post => assignedBy pre++thn.mustAssign.filter (· ∈ els.mustAssign)++assignedBy post

def CodeBlock.exposed : CodeBlock → List String
  | .plain ps => exposedIn (accessesOf ps)
  | .ifThen pre p thn post =>
    exposedIn (accessesOf pre) ++ (p.idents++thn.exposed++exposedIn (accessesOf post)).filter (· ∉ assignedBy pre)
  | .ifElse pre p thn els post =>
    exposedIn (accessesOf pre) ++ (p.idents++thn.exposed++els.exposed ++ (exposedIn (accessesOf post)).filter
          fun x => ¬ (x ∈ thn.mustAssign ∧ x ∈ els.mustAssign)).filter (· ∉ assignedBy pre)

/-- No else branch reads before it assigns a variable that is not defined before its `if`;
`defined` are the variables defined before the block. -/
def CodeBlock.ElseSeparate (defined : List String) : CodeBlock → Prop
  | .plain _ => True
  | .ifThen pre _ thn _ => thn.ElseSeparate (defined++assignedBy pre)
  | .ifElse pre _ thn els _ =>
    thn.ElseSeparate (defined++assignedBy pre) ∧ ∀ x ∈ els.exposed, x ∈ defined++assignedBy pre
variable {x : String}
theorem mem_exposedIn_append {t₁ t₂ : List Access} :
    x ∈ exposedIn (t₁++t₂) ↔ x ∈ exposedIn t₁ ∨ x ∈ exposedIn t₂ ∧ .write x ∉ t₁ := by
  induction t₁ with
  | nil => simp
  | cons a t ih =>
    cases a with
    | read y => simp [ih,or_assoc]
    | write y =>
      simp only [cons_append,exposedIn,mem_filter,ih,mem_cons,not_or,Access.write.injEq,decide_eq_true_eq]
      tauto

theorem mem_exposedIn_iff {t : List Access} : x ∈ exposedIn t ↔ ∃ t₁ t₂, t=t₁ ++ .read x::t₂ ∧ .write x ∉ t₁ := by
  constructor
  · intro h
    induction t with
    | nil => simp at h
    | cons a t ih =>
      cases a with
      | read y =>
        by_cases hxy : x=y
        · exact ⟨[],t,by rw [hxy]; rfl,by simp⟩
        · have hx : x ∈ exposedIn t := by simpa [hxy] using h
          obtain ⟨t₁,t₂,rfl,hw⟩ := ih hx
          exact ⟨.read y::t₁,t₂,rfl,by simp [hw]⟩
      | write y =>
        obtain ⟨hx,hxy⟩ : x ∈ exposedIn t ∧ x≠y := by simpa using h
        obtain ⟨t₁,t₂,rfl,hw⟩ := ih hx
        exact ⟨.write y::t₁,t₂,rfl,by simp [hw,hxy]⟩
  · rintro ⟨t₁,t₂,rfl,hw⟩
    rw [mem_exposedIn_append]
    exact .inr ⟨by simp,hw⟩

theorem definesBeforeUse_iff (f : AggFun) : f.DefinesBeforeUse ↔
    ∀ t ∈ f.body.paths, ∀ x ∈ exposedIn t, x ∈ f.states++f.fields := by
  constructor
  · intro h t ht x hx
    obtain ⟨t₁,t₂,heq,hw⟩ := mem_exposedIn_iff.mp hx
    by_contra hlocal
    exact hw (h t ht t₁ x t₂ heq hlocal)
  · intro h t ht t₁ x t₂ heq hlocal
    by_contra hw
    exact hlocal (h t ht x (mem_exposedIn_iff.mpr ⟨t₁,t₂,heq,hw⟩))


@[simp] theorem accessesOf_nil : accessesOf []=[] := rfl
@[simp] theorem accessesOf_cons (p : Primitive) (ps : List Primitive) :
    accessesOf (p::ps)=p.accesses++accessesOf ps := rfl

@[simp] theorem write_mem_accessesOf {ps : List Primitive} : .write x ∈ accessesOf ps ↔ x ∈ assignedBy ps := by
  induction ps with
  | nil => simp [assignedBy]
  | cons p ps ih => cases p <;> simp [assignedBy,ih,eq_comm]
variable {p : Predicate}
@[simp] theorem write_mem_predicate_accesses : .write x ∉ p.accesses := by simp [Predicate.accesses]
@[simp] theorem mem_exposedIn_reads {xs : List String} : x ∈ exposedIn (xs.map .read) ↔ x ∈ xs := by
  induction xs with
  | nil => simp
  | cons y ys ih => simp [ih]


@[simp] theorem mem_exposedIn_predicate : x ∈ exposedIn p.accesses ↔ x ∈ p.idents := mem_exposedIn_reads
theorem CodeBlock.paths_ne_nil (b : CodeBlock) : b.paths≠[] := by
  cases b with
  | plain ps | ifThen pre p thn post => simp [paths]
  | ifElse pre p thn els post => simp [paths,thn.paths_ne_nil]
variable {b : CodeBlock}
theorem CodeBlock.mem_mustAssign : x ∈ b.mustAssign ↔ ∀ t ∈ b.paths, .write x ∈ t := by
  induction b using inductElse with
  | plain ps => simp [mustAssign,paths]
  | ifThen pre p thn post ih => exact Iff.trans (by simp [mustAssign,assignedBy]) ih
  | ifElse pre p thn els post iht ihe =>
    simp only [mustAssign,paths,mem_append,forall_mem_map,
      write_mem_accessesOf,write_mem_predicate_accesses,mem_filter,decide_eq_true_eq,iht,
      ihe]
    constructor
    · rintro ((hpre | ⟨ht,he⟩) | hpost) t hmem
      · tauto
      · exact .inl (.inr (hmem.elim (ht t) (he t)))
      · tauto
    · intro h
      by_contra hneg
      simp only [not_or,not_and] at hneg
      obtain ⟨⟨hpre,hbranch⟩,hpost⟩ := hneg
      have hall : ∀ t, t ∈ thn.paths ∨ t ∈ els.paths → .write x ∈ t := by
        intro t hmem
        have := h t hmem
        tauto
      exact hbranch (fun t ht => hall t (.inl ht)) fun t ht => hall t (.inr ht)

private theorem mem_exposedIn_branch {pre post : List Primitive} {t : List Access} :
    x ∈ exposedIn (accessesOf pre++p.accesses++t++accessesOf post) ↔ x ∈ exposedIn (accessesOf pre) ∨
    x ∉ assignedBy pre ∧ (x ∈ p.idents ∨ x ∈ exposedIn t ∨ x ∈ exposedIn (accessesOf post) ∧ .write x ∉ t) := by
  simp only [mem_exposedIn_append,mem_exposedIn_predicate,mem_append,write_mem_accessesOf,
    write_mem_predicate_accesses,or_false,not_or]
  tauto

theorem CodeBlock.mem_exposed_ifThen {pre post : List Primitive} {thn : CodeBlock} :
    x ∈ (CodeBlock.ifThen pre p thn post).exposed ↔ x ∈ (CodeBlock.ifElse pre p thn (.plain []) post).exposed := by
  simp [exposed,mustAssign,assignedBy,accessesOf]

theorem CodeBlock.mem_exposed : x ∈ b.exposed ↔ ∃ t ∈ b.paths, x ∈ exposedIn t := by
  induction b using inductElse with
  | plain ps => simp [exposed,paths]
  | ifThen pre p thn post ih => exact mem_exposed_ifThen.trans ih
  | ifElse pre p thn els post iht ihe =>
    simp only [exposed,paths,mem_append,mem_filter,
      decide_eq_true_eq,mem_map,exists_exists_and_eq_and,mem_exposedIn_branch,iht,ihe,mem_mustAssign]
    constructor
    · obtain ⟨t₀,ht₀⟩ := exists_mem_of_ne_nil _ thn.paths_ne_nil
      rintro (hpre | ⟨((hp | ⟨t,ht,hx⟩) | ⟨t,ht,hx⟩) | ⟨hpost,hmust⟩,hout⟩)
      · exact ⟨t₀,.inl ht₀,.inl hpre⟩
      · exact ⟨t₀,.inl ht₀,.inr ⟨hout,.inl hp⟩⟩
      · exact ⟨t,.inl ht,.inr ⟨hout,.inr (.inl hx)⟩⟩
      · exact ⟨t,.inr ht,.inr ⟨hout,.inr (.inl hx)⟩⟩
      · -- one of the branches has a path that does not assign `x`
        obtain ⟨t,ht,hw⟩ : ∃ t, (t ∈ thn.paths ∨ t ∈ els.paths) ∧ .write x ∉ t := by
          by_contra hall
          simp only [not_exists,not_and,not_not] at hall
          exact hmust ⟨fun t ht => hall t (.inl ht),fun t ht => hall t (.inr ht)⟩
        exact ⟨t,ht,.inr ⟨hout,.inr (.inr ⟨hpost,hw⟩)⟩⟩
    · rintro ⟨t,ht,hpre | ⟨hout,hp | hx | ⟨hpost,hw⟩⟩⟩
      · exact .inl hpre
      · exact .inr ⟨.inl (.inl (.inl hp)),hout⟩
      · rcases ht with ht | ht
        · exact .inr ⟨.inl (.inl (.inr ⟨t,ht,hx⟩)),hout⟩
        · exact .inr ⟨.inl (.inr ⟨t,ht,hx⟩),hout⟩
      · refine .inr ⟨.inr ⟨hpost,fun hmust => ?_⟩,hout⟩
        exact hw (ht.elim (hmust.1 t) (hmust.2 t))
namespace LexicalSymbolTable
def Knows (v : LexicalSymbolTable) (xs : List String) : Prop := ∀ x, v.outerSymTable.containsKey x ↔ x ∈ xs
variable {xs : List String} {v : LexicalSymbolTable}
theorem knows_put (h : v.Knows xs) (x : String) (type : AggFunVarType) : (v.put x type).Knows (xs++[x]) := by
  intro y
  have hy := h y
  simp only [SymTab.containsKey,any_eq_true,beq_iff_eq] at hy
  simp only [put,SymTab.containsKey,any_cons,mem_append,mem_singleton,Bool.or_eq_true,beq_iff_eq,any_eq_true]
  rw [← hy,or_comm,eq_comm]
variable {v v' : LexicalSymbolTable}
theorem visitPrimitive_spec {p : Primitive} (h : v.visitPrimitive p=.ok v') (hv : v.Knows xs) :
    (∀ x ∈ exposedIn p.accesses, x ∈ xs) ∧ v'.Knows (xs++assignedBy [p]) := by
  cases p with
  | assign y e =>
    simp only [visitPrimitive,getUsedVars_ofExpr] at h
    have hexposed : ∀ x, x ∈ exposedIn (Primitive.assign y e).accesses ↔ x ∈ e.idents := by simp [mem_exposedIn_append]
    have hassigned : assignedBy [Primitive.assign y e]=[y] := rfl
    rw [hassigned]
    split_ifs at h with hused hnew hfield
    all_goals
      cases h
      refine ⟨fun x hx => ?_,?_⟩
      · rw [← hv x]
        by_contra hnot
        exact hused (any_eq_true.mpr ⟨x,(hexposed x).mp hx,by simpa using hnot⟩)
    · exact knows_put hv y .fnVar
    · -- an assigned variable that is known already
      have hy : y ∈ xs := (hv y).mp (by simpa using hnew)
      intro x
      rw [hv x,mem_append,mem_singleton]
      exact ⟨.inl,fun hx => hx.elim id fun hxy => hxy ▸ hy⟩
  | skip | emit =>
    cases h
    simpa [assignedBy] using hv

theorem visitPrimitives_spec {ps : List Primitive} (h : v.visitPrimitives ps=.ok v') (hv : v.Knows xs) :
    (∀ x ∈ exposedIn (accessesOf ps), x ∈ xs) ∧ v'.Knows (xs++assignedBy ps) := by
  induction ps generalizing v xs with
  | nil =>
    cases h
    simpa [assignedBy] using hv
  | cons p ps ih =>
    obtain ⟨w,hw,hrest⟩ := bind_eq_ok h
    obtain ⟨hp,hknows⟩ := visitPrimitive_spec hw hv
    obtain ⟨hps,hknows'⟩ := ih hrest hknows
    have hsplit : assignedBy (p::ps)=assignedBy [p]++assignedBy ps := by cases p <;> rfl
    refine ⟨fun x hx => ?_,by rwa [hsplit,← append_assoc]⟩
    rw [accessesOf_cons,mem_exposedIn_append] at hx
    rcases hx with hx | ⟨hx,hout⟩
    · exact hp x hx
    · refine (mem_append.mp (hps x hx)).resolve_right fun hmem => hout ?_
      have hwrite := write_mem_accessesOf.mpr hmem
      simpa using hwrite

theorem checkPred_spec {p : Predicate} {u : Unit}
    (h : v.checkPred p=.ok u) (hv : v.Knows xs) : ∀ x ∈ p.idents, x ∈ xs := by
  intro x hx
  rw [← hv x]
  by_contra hnot
  unfold checkPred at h
  rw [(vars_ofPredicate _).2.1,if_pos] at h
  · cases h
  · exact any_eq_true.mpr ⟨x,hx,by simpa using hnot⟩

theorem exposed_of_visitCodeBlock {b : CodeBlock} (h : visitCodeBlock b v=.ok v') (hv : v.Knows xs)
    (hsep : b.ElseSeparate xs) : ∀ x ∈ b.exposed, x ∈ xs := by
  induction b using inductElse generalizing v v' xs with
  | plain ps => exact (visitPrimitives_spec h hv).1
  | ifThen pre p thn post ih =>
    intro x hx
    exact ih h hv ⟨hsep,nofun⟩ x (CodeBlock.mem_exposed_ifThen.mp hx)
  | ifElse pre p thn els post iht ihe =>
    obtain ⟨old,hpre,h⟩ := bind_eq_ok h
    obtain ⟨u,hpred,h⟩ := bind_eq_ok h
    obtain ⟨w,hthn,h⟩ := bind_eq_ok h
    obtain ⟨w',hels,hpost⟩ := bind_eq_ok h
    obtain ⟨hexp,hold⟩ := visitPrimitives_spec hpre hv
    have hrestored : (w'.restore old).Knows (xs++assignedBy pre) := hold
    have hpost' := (visitPrimitives_spec hpost hrestored).1
    intro x hx
    simp only [exposed,mem_append,mem_filter,decide_eq_true_eq] at hx
    rcases hx with hx | ⟨hx,hout⟩
    · exact hexp x hx
    · have hin : x ∈ xs++assignedBy pre := by
        rcases hx with ((hx | hx) | hx) | ⟨hx,-⟩
        · exact checkPred_spec hpred hold x hx
        · exact iht hthn hold hsep.1 x hx
        · exact hsep.2 x hx
        · exact hpost' x hx
      exact (mem_append.mp hin).resolve_right hout

theorem knows_initFields {xs fields : List String}
    (h : v.initFields fields=.ok v') (hv : v.Knows xs) : v'.Knows (xs++fields) := by
  induction fields generalizing v xs with
  | nil =>
    cases h
    simpa using hv
  | cons field fields ih =>
    unfold initFields at h
    split_ifs at h
    have hnext := ih h (knows_put hv field .field)
    rwa [append_assoc,singleton_append] at hnext

theorem knows_initSymTable {f : AggFun} (h : initSymTable f=.ok v) : v.Knows (f.states++f.fields) := by
  have hstates (w : LexicalSymbolTable) (xs states : List String) (hw : w.Knows xs) :
      (w.initStates states).Knows (xs++states) := by
    induction states generalizing w xs with
    | nil => simpa [initStates] using hw
    | cons state states ih =>
      have hnext := ih _ _ (knows_put hw state .state)
      rwa [append_assoc,singleton_append] at hnext
  refine knows_initFields h ?_
  have hempty : Knows ⟨[],[]⟩ [] := fun x => by simp [SymTab.containsKey]
  simpa using hstates _ _ f.states hempty
end LexicalSymbolTable

theorem CodeBlock.elseSeparate_of_exposed {xs : List String} (h : ∀ x ∈ b.exposed, x ∈ xs) : b.ElseSeparate xs := by
  induction b using inductElse generalizing xs with
  | plain ps => trivial
  | ifThen pre p thn post ih => exact (ih fun x hx => h x (mem_exposed_ifThen.mpr hx)).1
  | ifElse pre p thn els post iht ihe =>
    refine ⟨iht fun x hx => ?_,fun x hx => ?_⟩
    all_goals
      by_cases hpre : x ∈ assignedBy pre
      · exact mem_append_right _ hpre
      · exact mem_append_left _ (h x (by simp [exposed,hx,hpre]))

/-- An accepted function reads its local variables only after it has assigned them, on every path,
exactly if its else branches do not rely on what their if branches define. -/
theorem definesBeforeUse_iff_elseSeparate (f : AggFun) (symTab : SymTab)
    (h : LexicalSymbolTable.visitAggFun f=.ok symTab) :
    f.DefinesBeforeUse ↔ f.body.ElseSeparate (f.states++f.fields) := by
  obtain ⟨v,hinit,h⟩ := bind_eq_ok h
  obtain ⟨v',hbody,-⟩ := bind_eq_ok h
  have hexposed : f.DefinesBeforeUse ↔ ∀ x ∈ f.body.exposed, x ∈ f.states++f.fields := by
    rw [definesBeforeUse_iff]
    constructor
    · intro hall x hx
      obtain ⟨t,ht,hxt⟩ := mem_exposed.mp hx
      exact hall t ht x hxt
    · intro hall t ht x hx
      exact hall x (mem_exposed.mpr ⟨t,ht,hx⟩)
  rw [hexposed]
  exact ⟨elseSeparate_of_exposed,LexicalSymbolTable.exposed_of_visitCodeBlock hbody
    (LexicalSymbolTable.knows_initSymTable hinit)⟩

private def sharedBranches : AggFun where
  name := "shared"
  states := ["s"]
  fields := ["pktlen"]
  body := .ifElse [] (.gt (.col "pktlen") (.val (.number 5)))
    (.plain [.assign "x" (.val (.number 1))]) (.plain [.assign "y" (.col "x")]) []

/-- The else branch reads a variable that only the if branch assigns. -/
theorem sharedBranches_accepted : (∃ symTab, LexicalSymbolTable.visitAggFun sharedBranches=.ok symTab) ∧
      ¬ sharedBranches.DefinesBeforeUse := by
  refine ⟨⟨_,rfl⟩,fun h => ?_⟩
  have hpath : [Access.read "pktlen",.read "x",.write "y"] ∈ sharedBranches.body.paths := by decide
  have hwrite := h _ hpath [.read "pktlen"] "x" [.write "y"] rfl (by decide)
  exact absurd hwrite (by decide)

private def ownBranches : AggFun where
  name := "own"
  states := ["s"]
  fields := ["pktlen"]
  body := .ifElse [.assign "x" (.col "pktlen")] (.gt (.col "x") (.val (.number 5))) (.plain [.assign "y" (.col "x")])
    (.plain [.assign "y" (.val (.number 1)),.assign "s" (.col "y")]) []

theorem ownBranches_definesBeforeUse : (∃ symTab, LexicalSymbolTable.visitAggFun ownBranches=.ok symTab) ∧
      ownBranches.DefinesBeforeUse := by
  refine ⟨⟨_,rfl⟩,(definesBeforeUse_iff_elseSeparate ownBranches _ rfl).mpr ?_⟩
  exact ⟨trivial,by decide⟩
end P4Benchmarks.Marple
