import P4Benchmarks.Marple.SwitchSets
/-!
# Switches at which a stream has packets

For one switch the analysis is a matter of single bits: whether the switch is in the shared set at a
moment, and in the copies that were made of it until then.
-/
namespace P4Benchmarks.Marple
open Lib Outcome List

def assignColumns (columns : List String) (exprs : List Expr) (σ : Store) : Store :=
  (columns.zip exprs).foldl (fun σ' ce => Function.update σ' ce.1 (ce.2.eval σ)) σ

/-- The packet `π` can give the row `σ` of a stream.  A filter passes rows on, a map computes
columns, a groupby sets the columns of its states to whatever the earlier packets made of them, and
a zip takes each column from one of the two rows of the packet. -/
inductive Row (prog : Prog) (π : Store) : String → Store → Prop
  | log : Row prog π pktLogStr π
  | filter {x s : String} {p : Predicate} {σ : Store} (hx : x≠pktLogStr)
      (hq : prog.symTree x=some (.filter s p)) (hrow : Row prog π s σ)
      (hp : p.eval σ) : Row prog π x σ
  | map {x s : String} {columns : List String} {exprs : List Expr} {σ : Store}
      (hx : x≠pktLogStr) (hq : prog.symTree x=some (.map s columns exprs))
      (hrow : Row prog π s σ) : Row prog π x (assignColumns columns exprs σ)
  | groupby {x s : String} {columns : List String} {aggFunc : String} {σ σ' : Store}
      (hx : x≠pktLogStr) (hq : prog.symTree x=some (.groupby s columns aggFunc))
      (hrow : Row prog π s σ) (hσ : ∀ c, c ∉ prog.stateVars aggFunc → σ' c=σ c) :
      Row prog π x σ'
  | zip {x s s' : String} {σ σ' τ : Store} (hx : x≠pktLogStr)
      (hq : prog.symTree x=some (.zip s s')) (hrow : Row prog π s σ) (hrow' : Row prog π s' σ')
      (hτ : ∀ c, τ c=σ c ∨ τ c=σ' c) : Row prog π x τ
variable (prog : Prog)

def StreamQuery.RowOver (R : String → Store → Prop) : StreamQuery → Store → Prop
  | .filter s p, τ => R s τ ∧ p.eval τ=Bool.true
  | .map s columns exprs, τ => ∃ σ, R s σ ∧ τ=assignColumns columns exprs σ
  | .groupby s _ aggFunc, τ => ∃ σ, R s σ ∧ ∀ c, c ∉ prog.stateVars aggFunc → τ c=σ c
  | .zip s s', τ => ∃ σ σ', R s σ ∧ R s' σ' ∧ ∀ c, τ c=σ c ∨ τ c=σ' c

def StreamQuery.Row (π : Store) : StreamQuery → Store → Prop := StreamQuery.RowOver prog (Marple.Row prog π)

/-- Whether a predicate covers the switch, with no answer if its set is the shared one, and whether
the switch is in the shared set afterwards.  `!=` takes a switch out of it, `and` and `or` copy
the first set before the second predicate is visited, and a negation copies the shared set before the
predicate under it is. -/
def Predicate.covers (sw : BitVec 32) : Predicate → Bool → Option Bool × Bool
  | .eq l r, kept => ((switchConstant l r).map fun e => e.evaluateValue.toOption == some sw,kept)
  | .ne l r, kept => (none,kept && ((switchConstant l r).all fun e => e.evaluateValue.toOption != some sw))
  | .gt _ _, kept | .lt _ _, kept | .true, kept => (none,kept)
  | .and p q, kept =>
    let (first,kept) := p.covers sw kept
    let inter := first.getD kept
    let (second,kept) := q.covers sw kept
    (some (inter && second.getD kept),kept)
  | .or p q, kept =>
    let (first,kept) := p.covers sw kept
    let union := first.getD kept
    let (second,kept) := q.covers sw kept
    (some (union || second.getD kept),kept)
  | .paren p, kept => p.covers sw kept
  | .not p, kept =>
    let (inner,later) := p.covers sw kept
    (some (kept && !inner.getD later),later)
  | .false, kept => (some Bool.false,kept)

inductive QueryTree where
  | pktlog
  | unary (query : StreamQuery) (input : QueryTree)
  | join (query : StreamQuery) (first second : QueryTree)

def LocatedExprTree.queries : LocatedExprTree → QueryTree
  | .pktlog _ => .pktlog
  | .unary q _ input => .unary q input.queries
  | .join q _ first second => .join q first.queries second.queries

/-- Whether the stream covers the switch, likewise for all streams on the paths to it, and whether the
switch is in the shared set afterwards.  The predicate of a filter is visited before its input, and a
filter with the shared set takes the switch out if its input does not cover it.  A zip copies both
sets when both inputs were visited. -/
def QueryTree.covers (sw : BitVec 32) : QueryTree → Bool → Option Bool × List (Option Bool) × Bool
  | .pktlog, kept => (some true,[],kept)
  | .unary (.filter _ p) input, kept =>
    let (own,kept) := p.covers sw kept
    let (fromInput,streams,kept) := input.covers sw kept
    let retained := fromInput.getD kept
    let result := own.map (· && retained)
    (result,result::streams,if own.isNone then kept && retained else kept)
  | .unary _ input, kept =>
    let (fromInput,streams,kept) := input.covers sw kept
    (fromInput,fromInput::streams,kept)
  | .join _ first second, kept =>
    let (fromFirst,streams,kept) := first.covers sw kept
    let (fromSecond,streams',kept) := second.covers sw kept
    let result := some (fromFirst.getD kept && fromSecond.getD kept)
    (result,result::streams++streams',kept)

def QueryTree.Covers (t : QueryTree) (k : Nat) (sw : BitVec 32) : Prop :=
  let (_,streams,kept) := t.covers sw true
  ∃ covered ∈ streams[k]?, covered.getD kept

instance (t : QueryTree) (k : Nat) (sw : BitVec 32) : Decidable (t.Covers k sw) :=
  inferInstanceAs (Decidable (∃ covered ∈ _, _))

section Analysis
variable {sw : BitVec 32} {all all' : Switches}

def SetRef.bit (sw : BitVec 32) : SetRef → Option Bool
  | .shared => none
  | .own s => some (decide (sw ∈ s))

@[simp] theorem SetRef.bit_shared : SetRef.shared.bit sw = none := rfl

@[simp] theorem SetRef.bit_own (s : Switches) : (SetRef.own s).bit sw = some (decide (sw ∈ s)) := rfl

@[simp] theorem SetRef.mem_read {ref : SetRef} : decide (sw ∈ ref.read all) = (ref.bit sw).getD (decide (sw ∈ all)) := by
  cases ref <;> rfl

theorem getSwValue_eq_ok {l r : Expr} {k : Option (BitVec 32)} (h : getSwValue l r=.ok k) :
    switchConstant l r=none ∧ k=none ∨ ∃ e v, switchConstant l r=some e ∧ e.evaluateValue=.ok v ∧ k=some v := by
  unfold getSwValue at h
  cases hc : switchConstant l r with
  | none =>
    rw [hc] at h
    exact .inl ⟨rfl,(Except.ok.inj h).symm⟩
  | some e =>
    rw [hc] at h
    dsimp only at h
    cases hv : e.evaluateValue with
    | error err =>
      rw [hv] at h
      cases h
    | ok v =>
      rw [hv] at h
      exact .inr ⟨e,v,rfl,hv,(Except.ok.inj h).symm⟩

theorem visitPredicate_covers {p : Predicate} {ref : SetRef} (h : visitPredicate p all=.ok (ref,all')) :
    p.covers sw (decide (sw ∈ all)) = (ref.bit sw,decide (sw ∈ all')) := by
  induction p generalizing all ref all' with
  | eq l r | ne l r =>
    obtain ⟨k,hk,h⟩ := bind_eq_ok h
    rcases getSwValue_eq_ok hk with ⟨hc,rfl⟩ | ⟨e,v,hc,hv,rfl⟩ <;> cases h
    · simp [Predicate.covers,hc]
    · simp [Predicate.covers,hc,hv,Except.toOption,eq_comm,Bool.and_comm,bne,Bool.beq_eq_decide_eq]
  | gt l r | lt l r | true | false =>
    cases h
    simp [Predicate.covers]
  | and p q ihp ihq | or p q ihp ihq =>
    obtain ⟨⟨first,all₁⟩,hp,h⟩ := bind_eq_ok h
    obtain ⟨⟨second,all₂⟩,hq,h⟩ := bind_eq_ok h
    cases h
    simp [Predicate.covers,ihp hp,ihq hq]
  | paren p ih => exact ih h
  | not p ih =>
    obtain ⟨⟨inner,all₁⟩,hp,h⟩ := bind_eq_ok h
    cases h
    simp [Predicate.covers,ih hp]
variable {prog : Prog} {aggFunAssocMap : String → Option Bool} {st st' : AnalyzerState} {tree : LocatedExprTree}

def LocatedExprTree.Covers (sw : BitVec 32) (tree : LocatedExprTree) (all all' : Switches) : Prop :=
  tree.queries.covers sw (decide (sw ∈ all)) =
    (tree.opl.switchSet.bit sw,tree.nodes.map fun n => n.2.switchSet.bit sw,decide (sw ∈ all'))

attribute [local simp] LocatedExprTree.queries QueryTree.covers LocatedExprTree.opl LocatedExprTree.nodes

theorem recurseDeps_covers {visit : StreamQuery → AnalyzerState → Outcome JavaError (LocatedExprTree × AnalyzerState)}
    (hsw : sw ∈ allSwitches) {stream : String} (h : (recurseDeps prog visit stream st).Returns (tree,st'))
    (hvisit : ∀ q, (visit q st).Returns (tree,st') → tree.Covers sw st.all st'.all) :
    tree.Covers sw st.all st'.all := by
  unfold recurseDeps at h
  by_cases hx : stream=pktLogStr
  · rw [if_pos hx,returns_pure] at h
    cases h
    simp [LocatedExprTree.Covers,hsw]
  · rw [if_neg hx] at h
    cases hq : prog.symTree stream with
    | none =>
      rw [hq] at h
      exact absurd h not_returns_throw
    | some q =>
      rw [hq] at h
      exact hvisit q h

theorem visitQuery_covers (hsw : sw ∈ allSwitches) {depth : Nat} {q : StreamQuery}
    (h : (visitQuery prog aggFunAssocMap depth q st).Returns (tree,st')) : tree.Covers sw st.all st'.all := by
  induction depth generalizing q st st' tree with
  | zero => exact absurd h not_returns_tooDeep
  | succ depth ih =>
    cases q with
    | filter s p =>
      obtain ⟨⟨ref,all₁⟩,hp,h⟩ := returns_of_bind h
      obtain ⟨⟨input,st₂⟩,hrec,h⟩ := returns_of_bind h
      have hinput : _ = _ := recurseDeps_covers hsw hrec fun _ => ih
      have hpred := @visitPredicate_covers sw _ _ _ _ (Option.some.inj hp)
      cases returns_pure.mp h
      cases ref <;> simp [LocatedExprTree.Covers,hpred,hinput]
    | map s columns exprs =>
      obtain ⟨⟨input,st₂⟩,hrec,h⟩ := returns_of_bind h
      have hinput : _ = _ := recurseDeps_covers hsw hrec fun _ => ih
      cases returns_pure.mp h
      simp [LocatedExprTree.Covers,hinput]
    | groupby s columns aggFunc =>
      obtain ⟨⟨input,st₂⟩,hrec,h⟩ := returns_of_bind h
      obtain ⟨streamType,-,h⟩ := returns_of_bind h
      have hinput : _ = _ := recurseDeps_covers hsw hrec fun _ => ih
      cases returns_pure.mp h
      simp [LocatedExprTree.Covers,hinput]
    | zip s s' =>
      obtain ⟨⟨first,st₁⟩,hrec,h⟩ := returns_of_bind h
      obtain ⟨⟨second,st₂⟩,hrec',h⟩ := returns_of_bind h
      have hfirst : _ = _ := recurseDeps_covers hsw hrec fun _ => ih
      have hsecond : _ = _ := recurseDeps_covers hsw hrec' fun _ => ih
      cases returns_pure.mp h
      simp [LocatedExprTree.Covers,hfirst,hsecond]

end Analysis

/-- `long = filter(T, pktlen > 100 and true); a = filter(T, switch != 3); c = zip(long, a)`. -/
def longAndNotThree : Prog :=
  ⟨[],[⟨"long",.filter "T" (.and (.gt (.col "pktlen") (.val (.number 100))) .true)⟩,
    ⟨"a",.filter "T" (.ne (.col "switch") (.val (.number 3)))⟩,⟨"c",.zip "long" "a"⟩]⟩

def longPacket : Store := fun c => if c = "switch" then 3 else 200

def notThreeAndLong : Prog :=
  ⟨[],[⟨"a",.filter "T" (.ne (.col "switch") (.val (.number 3)))⟩,
    ⟨"b",.filter "T" (.gt (.col "pktlen") (.val (.number 100)))⟩,⟨"c",.zip "a" "b"⟩]⟩

def notFive : Prog := ⟨[],[⟨"a",.filter "T" (.not (.paren (.eq (.col "pktlen") (.val (.number 5)))))⟩]⟩

end P4Benchmarks.Marple
