import P4Benchmarks.Marple.PipelineCorrect
/-! # The stages and the statements -/
namespace P4Benchmarks.Marple
open Lib Outcome Relation List Option
namespace Prog
variable (prog : Prog)
def ReadsFrom (i j : Nat) : Prop :=
  ∃ s t : StreamStmt, prog.stmts[i]?=some s ∧ prog.stmts[j]?=some t ∧
    t.stream≠pktLogStr ∧ t.stream ∈ s.query.operands ∧ j < i ∧
    ∀ (k : Nat) (u : StreamStmt), j<k → k < i → prog.stmts[k]?=some u → u.stream≠t.stream

def Needed (i : Nat) : Prop := ReflTransGen (fun j i => prog.ReadsFrom i j) i (prog.stmts.length-1)

structure StitchedText (pipe : List PipeStage) : Prop where
  nodup : (pipe.map PipeStage.line).Nodup
  mem_iff : ∀ i, i ∈ pipe.map PipeStage.line ↔ prog.Needed i
  operands_before : ∀ before s after, pipe=before++s::after → ∀ j, prog.ReadsFrom s.line j →
    j ∈ before.map PipeStage.line

def NotReassigned : Prop :=
  ∀ (i : Nat) (s : StreamStmt), prog.Needed i → prog.stmts[i]?=some s → ∀ o ∈ s.query.operands, o≠pktLogStr →
      ∀ (k : Nat) (t : StreamStmt), i≤k → prog.stmts[k]?=some t → t.stream≠o
variable {prog}
theorem exists_readsFrom (hprog : prog.OperandsAssigned) {i : Nat} {s : StreamStmt} {o : String}
    (hs : prog.stmts[i]?=some s) (ho : o ∈ s.query.operands) (hne : o≠pktLogStr) :
    ∃ (j : Nat) (t : StreamStmt), prog.ReadsFrom i j ∧ prog.stmts[j]?=some t ∧ t.stream=o := by
  obtain ⟨j₀,t₀,hlt₀,hj₀,ht₀⟩ := (hprog i s hs o ho).resolve_left hne
  -- the last assignment among the first `i` statements
  have htake : ∀ k t, (prog.stmts.take i)[k]?=some t ↔ k < i ∧ prog.stmts[k]?=some t := by simp [List.getElem?_take]
  have hprefix : ∃ j t, LastAssigned ⟨prog.aggFuns,prog.stmts.take i⟩ o j t :=
    exists_lastAssigned ((htake j₀ t₀).mpr ⟨hlt₀,hj₀⟩) ht₀
  obtain ⟨j,t,hlast⟩ := hprefix
  obtain ⟨hji,hj⟩ := (htake j t).mp hlast.at_line
  obtain rfl := hlast.stream
  refine ⟨j,t,⟨s,t,hs,hj,hne,ho,hji,fun k u hk hki hu => ?_⟩,hj,rfl⟩
  exact hlast.last k u hk ((htake k u).mpr ⟨hki,hu⟩)

theorem Needed.lastAssigned (h : prog.NotReassigned) (hstmts : prog.stmts≠[]) {i : Nat}
    (hi : prog.Needed i) : ∃ s, prog.LastAssigned s.stream i s := by
  rcases ReflTransGen.cases_head hi with rfl | ⟨m,hread,hm⟩
  · obtain ⟨s,hlast⟩ := lastAssigned_lastAssignedId hstmts
    exact ⟨s,hlast.stream.symm ▸ hlast⟩
  · obtain ⟨s,t,hs,ht,hne,hmem,hlt,hbetween⟩ := hread
    refine ⟨t,ht,rfl,fun k u hk hu => ?_⟩
    rcases Nat.lt_or_ge k m with hkm | hmk
    · exact hbetween k u hk hkm hu
    · exact h m s hm hs t.stream hmem hne k u hmk hu

theorem ReadsFrom.dep {i j : Nat} {s t : StreamStmt} (h : prog.ReadsFrom i j) (hs : prog.LastAssigned s.stream i s)
    (ht : prog.stmts[j]?=some t) : prog.Dep t.stream s.stream := by
  obtain ⟨s',t',hs',ht',hne,hmem,-,-⟩ := h
  obtain rfl : s=s' := some.inj (hs.at_line.symm.trans hs')
  obtain rfl : t=t' := some.inj (ht.symm.trans ht')
  exact ⟨hne,s.query.getOperation,depTable_eq_some_iff.mpr ⟨i,s,hs,rfl⟩,hmem⟩
section
variable (hprog : prog.OperandsAssigned) (h : prog.NotReassigned) (hstmts : prog.stmts≠[])
include hprog h hstmts
theorem exists_needed_of_dep {i : Nat} {s : StreamStmt} {o : String} (hi : prog.Needed i)
    (hs : prog.LastAssigned s.stream i s) (hdep : prog.Dep o s.stream) :
    ∃ (j : Nat) (t : StreamStmt), j < i ∧ prog.Needed j ∧ prog.LastAssigned t.stream j t ∧ t.stream=o := by
  obtain ⟨hne,op,hop,hmem⟩ := hdep
  obtain ⟨line,s',hlast,rfl⟩ := depTable_eq_some_iff.mp hop
  obtain ⟨rfl,rfl⟩ := hs.unique hlast
  obtain ⟨j,t,hread,hj,rfl⟩ := exists_readsFrom hprog hs.at_line hmem hne
  have hneeded : prog.Needed j := .head hread hi
  obtain ⟨t',ht'⟩ := hneeded.lastAssigned h hstmts
  obtain rfl : t=t' := some.inj (hj.symm.trans ht'.at_line)
  obtain ⟨-,-,-,-,-,-,hlt,-⟩ := hread
  exact ⟨j,t,hlt,hneeded,ht',rfl⟩

theorem acc_of_notReassigned : Acc prog.Dep prog.lastAssignedId := by
  have hacc : ∀ (i : Nat) (s : StreamStmt), prog.Needed i → prog.LastAssigned s.stream i s → Acc prog.Dep s.stream := by
    intro i
    induction i using Nat.strongRecOn with
    | ind i ih =>
      intro s hi hs
      refine .intro s.stream fun o ho => ?_
      obtain ⟨j,t,hlt,hj,ht,rfl⟩ := exists_needed_of_dep hprog h hstmts hi hs ho
      exact ih j hlt t hj ht
  obtain ⟨s,hs⟩ := lastAssigned_lastAssignedId hstmts
  rw [← hs.stream]
  exact hacc _ s .refl (hs.stream.symm ▸ hs)

theorem needed_iff_stream {i : Nat} {s : StreamStmt} (hs : prog.LastAssigned s.stream i s) :
    prog.Needed i ↔ ReflTransGen prog.Dep s.stream prog.lastAssignedId := by
  obtain ⟨last,hlast⟩ := lastAssigned_lastAssignedId hstmts
  constructor
  · intro hi
    induction hi using ReflTransGen.head_induction_on generalizing s with
    | refl =>
      obtain rfl : s=last := some.inj (hs.at_line.symm.trans hlast.at_line)
      rw [hlast.stream]
    | head hread hm ih =>
      obtain ⟨u,hu⟩ := Needed.lastAssigned h hstmts hm
      exact .head (hread.dep hu hs.at_line) (ih hu)
  · intro hpath
    generalize hx : s.stream=x at hpath
    induction hpath using ReflTransGen.head_induction_on generalizing i s with
    | refl =>
      obtain ⟨rfl,-⟩ := (hx ▸ hs).unique hlast
      exact .refl
    | head hdep _ ih =>
      obtain ⟨-,op,hop,-⟩ := id hdep
      obtain ⟨line,u,hu,-⟩ := depTable_eq_some_iff.mp hop
      obtain rfl := hu.stream
      obtain ⟨j,t,-,hj,ht,htx⟩ := exists_needed_of_dep hprog h hstmts (ih hu rfl) hu hdep
      obtain ⟨rfl,-⟩ := hs.unique (hx ▸ htx ▸ ht)
      exact hj

theorem Stitched.text {pipe : List PipeStage} (hpipe : prog.Stitched pipe)
    (hstages : ∀ s ∈ pipe, ∃ t, prog.LastAssigned s.pipeName s.line t) :
    prog.StitchedText pipe where
  nodup := by
    refine List.Nodup.of_map (fun line => (prog.stmts[line]?.map StreamStmt.stream).getD "") ?_
    have hnames : (pipe.map PipeStage.line).map (fun line => (prog.stmts[line]?.map StreamStmt.stream).getD "") =
          pipe.map PipeStage.pipeName := by
      rw [List.map_map]
      refine List.map_congr_left fun s hs => ?_
      obtain ⟨t,ht⟩ := hstages s hs
      simp [ht.at_line,ht.stream]
    rw [hnames]
    exact hpipe.nodup
  mem_iff := by
    intro i
    constructor
    · intro hi
      obtain ⟨s,hs,rfl⟩ := mem_map.mp hi
      obtain ⟨t,ht⟩ := hstages s hs
      refine (needed_iff_stream hprog h hstmts (ht.stream.symm ▸ ht)).mpr ?_
      rw [ht.stream]
      exact (hpipe.mem_iff _).mp (mem_map_of_mem hs)
    · intro hi
      obtain ⟨t,ht⟩ := hi.lastAssigned h hstmts
      have hmem := (hpipe.mem_iff _).mpr ((needed_iff_stream hprog h hstmts ht).mp hi)
      obtain ⟨s,hs,hname⟩ := mem_map.mp hmem
      obtain ⟨t',ht'⟩ := hstages s hs
      obtain ⟨rfl,-⟩ := (hname ▸ ht').unique ht
      exact mem_map_of_mem hs
  operands_before := by
    intro before s after heq j hread
    obtain ⟨t,ht⟩ := hstages s (by simp [heq])
    have hts : prog.LastAssigned t.stream s.line t := ht.stream.symm ▸ ht
    have hneeded : prog.Needed s.line := by
      refine (needed_iff_stream hprog h hstmts hts).mpr ?_
      rw [ht.stream]
      exact (hpipe.mem_iff _).mp (mem_map_of_mem (by simp [heq]))
    obtain ⟨u,hu⟩ := Needed.lastAssigned h hstmts (.head hread hneeded)
    have hbefore := hpipe.operands_before before s after heq u.stream (ht.stream ▸ hread.dep hts hu.at_line)
    obtain ⟨s',hs',hname⟩ := mem_map.mp hbefore
    obtain ⟨t',ht'⟩ := hstages s' (by simp [heq,hs'])
    obtain ⟨rfl,-⟩ := (hname ▸ ht').unique hu
    exact mem_map_of_mem hs'
end

theorem StitchedText.notReassigned (hprog : prog.OperandsAssigned) {pipe : List PipeStage}
    (hpipe : prog.StitchedText pipe)
    (hstages : ∀ s ∈ pipe, ∃ t, prog.LastAssigned s.pipeName s.line t) : prog.NotReassigned := by
  intro i s hi hs o ho hne k t hk ht hto
  obtain ⟨j,u,hread,hj,rfl⟩ := exists_readsFrom hprog hs ho hne
  obtain ⟨s',hs',hline⟩ := mem_map.mp ((hpipe.mem_iff j).mpr (.head hread hi))
  obtain ⟨u',hu'⟩ := hstages s' hs'
  subst hline
  obtain rfl : u=u' := some.inj (hj.symm.trans hu'.at_line)
  obtain ⟨-,-,-,-,-,-,hlt,-⟩ := hread
  exact hu'.last k t (by omega) ht (hto.trans hu'.stream)

/-- Stitching is right for the table exactly when no needed stream depends on itself there, and for
the text exactly when no needed statement reads a stream that is assigned again.  A program that
is refused for its fields stays refused; for the table this matters only if the last stream is
called `T`, whose tree is that of the packets. -/
theorem stitches_iff_noSelfDependence (prog : Prog) (hstmts : prog.stmts≠[]) (hprog : prog.OperandsAssigned) :
    (prog.NoSelfDependence → prog.Stitches prog.Stitched) ∧
      (¬ prog.FieldsRefused ∨ prog.lastAssignedId≠pktLogStr →
        prog.Stitches prog.Stitched → prog.NoSelfDependence) ∧
      (prog.NotReassigned → prog.Stitches prog.StitchedText) ∧
      (¬ prog.FieldsRefused → prog.Stitches prog.StitchedText → prog.NotReassigned) := by
  refine ⟨fun h => ?_,fun hcond h => ?_,fun h => ?_,fun hfields h => ?_⟩
  · exact stitches_of_acc hprog hstmts (acc_of_noSelfDependence h) fun depth pipe hret =>
      (stitched_of_returns hret).1
  · refine noSelfDependence_of_acc ?_
    rcases hcond with hfields | hne
    · obtain ⟨depth,pipe,hret,-⟩ := h.returns hfields
      exact (stitched_of_returns hret).2.1
    · obtain ⟨⟨depth,tree,htree⟩,-⟩ := h
      exact acc_of_buildExprTree hne htree
  · refine stitches_of_acc hprog hstmts (acc_of_notReassigned hprog h hstmts)
      fun depth pipe hret => ?_
    obtain ⟨hpipe,-,hstages⟩ := stitched_of_returns hret
    exact hpipe.text hprog h hstmts hstages
  · obtain ⟨depth,pipe,hret,hpipe⟩ := h.returns hfields
    exact hpipe.notReassigned hprog (stitched_of_returns hret).2.2

def zipped : Prog where
  aggFuns := []
  stmts := [⟨"a",.filter "T" .true⟩,⟨"b",.filter "a" .true⟩,⟨"c",.zip "a" "b"⟩]

theorem zipped_operandsAssigned : zipped.OperandsAssigned := by
  intro i s hs
  match i with
  | 0 =>
    cases hs
    exact fun o ho => .inl (mem_singleton.mp ho)
  | 1 =>
    cases hs
    exact fun o ho => .inr ⟨0,_,by decide,rfl,(mem_singleton.mp ho).symm⟩
  | 2 =>
    cases hs
    intro o ho
    rcases mem_pair.mp ho with rfl | rfl
    · exact .inr ⟨0,_,by decide,rfl,rfl⟩
    · exact .inr ⟨1,_,by decide,rfl,rfl⟩

theorem zipped_notReassigned : zipped.NotReassigned := by
  intro i s _ hs o ho _ k t hk ht
  match i, k with
  | 0, 0 | 0, 1 | 0, 2 | 1, 1 | 1, 2 =>
    cases hs
    cases ht
    rw [mem_singleton.mp ho]
    decide
  | 2, 2 =>
    cases hs
    cases ht
    rcases mem_pair.mp ho with rfl | rfl <;> decide

theorem zipped_stitches : zipped.stmts≠[] ∧ zipped.OperandsAssigned ∧ zipped.NotReassigned ∧
      zipped.Stitches zipped.StitchedText := by
  have hstmts : zipped.stmts≠[] := by decide
  exact ⟨hstmts,zipped_operandsAssigned,zipped_notReassigned,
    (stitches_iff_noSelfDependence zipped hstmts zipped_operandsAssigned).2.2.1 zipped_notReassigned⟩

def reassigned : Prog where
  aggFuns := []
  stmts := [⟨"a",.filter "T" .true⟩,⟨"a",.map "a" ["size"] [.col "pktlen"]⟩]

theorem reassigned_operandsAssigned : reassigned.OperandsAssigned := by
  intro i s hs
  match i with
  | 0 =>
    cases hs
    exact fun o ho => .inl (mem_singleton.mp ho)
  | 1 =>
    cases hs
    exact fun o ho => .inr ⟨0,_,by decide,rfl,(mem_singleton.mp ho).symm⟩

/-- The second query is its own operand in the table, and neither traversal ends. -/
theorem reassigned_never_ends : reassigned.stmts≠[] ∧ reassigned.OperandsAssigned ∧
      (∀ depth, ¬ (reassigned.buildExprTree depth reassigned.lastAssignedId).Terminates) ∧
      ∀ depth, ¬ (reassigned.stitchPipe depth).Terminates := by
  refine ⟨by decide,reassigned_operandsAssigned,fun depth => ?_,fun depth => ?_⟩
  · induction depth with
    | zero => exact not_terminates_tooDeep
    | succ depth ih =>
      refine not_terminates_bind ?_ _
      exact not_terminates_bind ih _
  · refine not_terminates_bind ?_ _
    induction depth with
    | zero => exact not_terminates_tooDeep
    | succ depth ih =>
      refine not_terminates_bind ?_ _
      exact not_terminates_bind ih _
end Prog
end P4Benchmarks.Marple
