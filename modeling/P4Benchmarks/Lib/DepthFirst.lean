import Mathlib.Data.List.Nodup
import Mathlib.Data.List.TakeWhile
/-! # Depth-first search for back edges -/
namespace P4Benchmarks.Lib
open List Prod
variable {α : Type*} (succs : α → List α) (inside : α → Prop)
/-- All walks from here stay in the graph and come to an end. -/
inductive Safe : α → Prop
  | intro {v : α} (hv : inside v) (hsuccs : ∀ u ∈ succs v, Safe u) : Safe v

/-- The walk along the first successors that are not safe leaves the graph. -/
inductive RunsOff : α → Prop
  | outside {v : α} (hv : ¬inside v) : RunsOff v
  | step {v u : α} {before after : List α} (hsuccs : succs v=before++u::after)
      (hsafe : ∀ w ∈ before, Safe succs inside w) (hu : RunsOff u) : RunsOff v

def Topological : List α → Prop
  | [] => True
  | v::rest => (∀ u ∈ succs v, u ∈ rest) ∧ Topological rest
variable {succs inside}
theorem Safe.not_runsOff {v : α} (h : Safe succs inside v) : ¬RunsOff succs inside v := by
  induction h with
  | intro hv _ ih =>
    intro hoff
    cases hoff with
    | outside hout => exact hout hv
    | step hsuccs _ hu => exact ih _ (by simp [hsuccs]) hu

theorem Topological.safe {l : List α} (h : Topological succs l) (hinside : ∀ v ∈ l, inside v) :
    ∀ v ∈ l, Safe succs inside v := by
  induction l with
  | nil => simp
  | cons w rest ih =>
    have hrest := ih h.2 fun v hv => hinside v (mem_cons_of_mem w hv)
    intro v hv
    rcases mem_cons.mp hv with rfl | hv
    · exact .intro (hinside v mem_cons_self) fun u hu => hrest u (h.1 u hu)
    · exact hrest v hv

theorem Topological.closed {l : List α} (h : Topological succs l) {v u : α} (hv : v ∈ l)
    (hu : u ∈ succs v) : u ∈ l := by
  induction l with
  | nil => cases hv
  | cons w rest ih =>
    rcases mem_cons.mp hv with rfl | hv
    · exact mem_cons_of_mem _ (h.1 u hu)
    · exact mem_cons_of_mem w (ih h.2 hv)

theorem not_safe_of_trapped {S : α → Prop} (hinside : ∀ v, S v → inside v)
    (htrapped : ∀ v, S v → ∃ before u after, succs v=before++u::after ∧ (∀ w ∈ before, Safe succs inside w) ∧ S u)
    {v : α} (hv : S v) : ¬Safe succs inside v ∧ ¬RunsOff succs inside v := by
  have hsafe : ∀ w, Safe succs inside w → ¬S w := by
    intro w hw
    induction hw with
    | intro _ _ ih =>
      intro hSw
      obtain ⟨before,u,after,hsuccs,-,hu⟩ := htrapped _ hSw
      exact ih u (by simp [hsuccs]) hu
  refine ⟨fun h => hsafe v h hv,fun hoff => ?_⟩
  induction hoff with
  | outside hout => exact hout (hinside _ hv)
  | @step v u before after hsuccs hbefore hu ih =>
    obtain ⟨before',u',after',hsuccs',hbefore',hu'⟩ := htrapped v hv
    rw [hsuccs] at hsuccs'
    -- The walk and the set leave `v` by the same edge: each successor before it is safe.
    rcases append_eq_append_iff.mp hsuccs' with ⟨mid,rfl,hmid⟩ | ⟨mid,rfl,hmid⟩
    · cases mid with
      | nil =>
        cases hmid
        exact ih hu'
      | cons w mid =>
        cases hmid
        exact (hbefore' u (by simp)).not_runsOff hu
    · cases mid with
      | nil =>
        cases hmid
        exact ih hu'
      | cons w mid =>
        cases hmid
        exact hsafe u' (hbefore u' (by simp)) hu'

/-- The path, latest node first, each with the successors that are still to be looked at, and the
nodes that are finished. -/
structure Search (α : Type*) where
  frames : List (α × List α)
  finished : List α
namespace Search
def path (t : Search α) : List α := t.frames.map fst
def work (t : Search α) : Nat := 2*t.finished.length+t.path.length
end Search

inductive SearchExit (α : Type*) where
  | complete
  | backEdge (v u : α)
  | leaves
section
variable [DecidableEq α] [DecidablePred inside]
variable (succs inside) in
def Search.round (t : Search α) : Except (SearchExit α) (Search α) :=
  match t.frames with
  | [] => .error .complete
  | (v,us)::rest =>
    match us.dropWhile (· ∈ t.finished) with
    | [] => .ok ⟨rest,v::t.finished⟩
    | u::us' =>
      if ¬inside u then .error .leaves
      else if u ∈ t.path then .error (.backEdge v u)
      else .ok ⟨(u,succs u)::(v,us')::rest,t.finished⟩
section Rounds
variable {v u : α} {us finished : List α} {rest : List (α × List α)}
theorem Search.round_skip (hu : u ∈ finished) : Search.round succs inside ⟨(v,u::us)::rest,finished⟩ =
      Search.round succs inside ⟨(v,us)::rest,finished⟩ := by
  simp only [Search.round,dropWhile_cons,hu,decide_true,if_true]
  rfl
variable (hfinished : u ∉ finished)
include hfinished
theorem Search.round_leaves (hu : ¬inside u) : Search.round succs inside ⟨(v,u::us)::rest,finished⟩=.error .leaves := by
  simp [Search.round,hfinished,hu]

theorem Search.round_backEdge (hu : inside u) (hmem : u ∈ v::rest.map fst) :
    Search.round succs inside ⟨(v,u::us)::rest,finished⟩=.error (.backEdge v u) := by
  have hpath : u ∈ Search.path ⟨(v,u::us)::rest,finished⟩ := hmem
  simp [Search.round,hfinished,hu,hpath]

theorem Search.round_push (hu : inside u) (hmem : u ∉ v::rest.map fst) :
    Search.round succs inside ⟨(v,u::us)::rest,finished⟩ = .ok ⟨(u,succs u)::(v,us)::rest,finished⟩ := by
  have hpath : u ∉ Search.path ⟨(v,u::us)::rest,finished⟩ := hmem
  simp [Search.round,hfinished,hu,hpath]
end Rounds
variable (succs inside) in
def Search.run : Nat → Search α → Option (SearchExit α)
  | 0, _ => none
  | fuel+1, t =>
    match t.round succs inside with
    | .error exit => some exit
    | .ok t' => run fuel t'
end
variable (succs) in
/-- The successors of the nodes of the path, from the latest one on: finished ones, then the next node
of the path, then those that remain. -/
def FramesOk (finished : List α) : Option α → List (α × List α) → Prop
  | _, [] => True
  | above, (v,us)::rest =>
    (∃ before, (∀ w ∈ before, w ∈ finished) ∧ succs v=before++above.toList++us) ∧ FramesOk finished (some v) rest
namespace FramesOk
variable {finished : List α} {above : Option α} {frames : List (α × List α)} {u : α}
theorem mono {finished' : List α} (h : FramesOk succs finished above frames)
    (hsub : ∀ w ∈ finished, w ∈ finished') : FramesOk succs finished' above frames := by
  induction frames generalizing above with
  | nil => trivial
  | cons frame rest ih =>
    obtain ⟨⟨before,hbefore,hsuccs⟩,hrest⟩ := h
    exact ⟨⟨before,fun w hw => hsub w (hbefore w hw),hsuccs⟩,ih hrest⟩
variable (h : FramesOk succs finished (some u) frames)
include h
theorem finish : FramesOk succs (u::finished) none frames := by
  cases frames with
  | nil => trivial
  | cons frame rest =>
    obtain ⟨⟨before,hbefore,hsuccs⟩,hrest⟩ := h
    refine ⟨⟨before++[u],?_,by simpa using hsuccs⟩,hrest.mono fun w hw => by simp [hw]⟩
    intro w hw
    rcases mem_append.mp hw with hw | hw
    · exact mem_cons_of_mem u (hbefore w hw)
    · exact mem_cons.mpr (.inl (mem_singleton.mp hw))

theorem runsOff (hfinished : ∀ w ∈ finished, Safe succs inside w) (hu : RunsOff succs inside u) :
    ∀ v ∈ frames.map fst, RunsOff succs inside v := by
  induction frames generalizing u with
  | nil => simp
  | cons frame rest ih =>
    obtain ⟨⟨before,hbefore,hsuccs⟩,hrest⟩ := h
    have hframe : RunsOff succs inside frame.1 :=
      .step (by simpa using hsuccs) (fun w hw => hfinished w (hbefore w hw)) hu
    intro v hv
    rcases mem_cons.mp hv with rfl | hv
    · exact hframe
    · exact ih hrest hframe v hv

theorem leads {S : α → Prop} (hu : S u) (hS : ∀ v ∈ frames.map fst, S v) :
    ∀ v ∈ frames.map fst, ∃ before u after, succs v=before++u::after ∧ (∀ w ∈ before, w ∈ finished) ∧ S u := by
  induction frames generalizing u with
  | nil => simp
  | cons frame rest ih =>
    obtain ⟨⟨before,hbefore,hsuccs⟩,hrest⟩ := h
    intro v hv
    rcases mem_cons.mp hv with rfl | hv
    · exact ⟨before,u,frame.2,by simpa using hsuccs,hbefore,hu⟩
    · exact ih hrest (hS frame.1 (by simp)) (fun w hw => hS w (by simp [hw])) v hv
end FramesOk
variable (succs inside) in
structure Search.Valid (root : α) (t : Search α) : Prop where
  inside_of_mem : ∀ v ∈ t.path++t.finished, inside v
  nodup : (t.path++t.finished).Nodup
  topological : Topological succs t.finished
  frames_ok : FramesOk succs t.finished none t.frames
  root_finished : t.frames=[] → root ∈ t.finished
  root_last : t.frames≠[] → t.path.getLast?=some root
namespace Search.Valid
variable {root : α} {t : Search α}
theorem start (hroot : inside root) : Valid succs inside root ⟨[(root,succs root)],[]⟩ :=
  ⟨by simpa [path] using hroot,by simp [path],trivial,⟨⟨[],by simp⟩,trivial⟩,by simp,by simp [path]⟩

theorem safe (h : Valid succs inside root t) : ∀ v ∈ t.finished, Safe succs inside v :=
  h.topological.safe fun v hv => h.inside_of_mem v (mem_append_right _ hv)
section
variable {v : α} {us : List α} {rest : List (α × List α)} (h : Valid succs inside root t) (hframes : t.frames=(v,us)::rest)
include h hframes
theorem drop [DecidableEq α] :
    (∃ before, (∀ w ∈ before, w ∈ t.finished) ∧ succs v=before++us.dropWhile (· ∈ t.finished)) ∧
      FramesOk succs t.finished (some v) rest := by
  have hok := h.frames_ok
  rw [hframes] at hok
  obtain ⟨⟨before,hbefore,hsuccs⟩,hrest⟩ := hok
  refine ⟨⟨before++us.takeWhile (· ∈ t.finished),?_,?_⟩,hrest⟩
  · intro w hw
    rcases mem_append.mp hw with hw | hw
    · exact hbefore w hw
    · simpa using mem_takeWhile_imp hw
  · rw [hsuccs,append_assoc,append_assoc,takeWhile_append_dropWhile]
    rfl

theorem finish (hsuccs : ∀ u ∈ succs v, u ∈ t.finished) (hrest : FramesOk succs t.finished (some v) rest) :
    Valid succs inside root ⟨rest,v::t.finished⟩ := by
  have hpath : t.path=v::rest.map fst := by rw [path,hframes,map_cons]
  have hperm : (rest.map fst++v::t.finished).Perm (t.path++t.finished) := by
    rw [hpath]
    exact perm_middle
  refine ⟨fun w hw => h.inside_of_mem w (hperm.mem_iff.mp hw),hperm.nodup_iff.mpr h.nodup,
    ⟨hsuccs,h.topological⟩,hrest.finish,?_,?_⟩
  · intro hnil
    have hlast := h.root_last (by simp [hframes])
    rw [hpath,show rest=[] from hnil] at hlast
    simp at hlast
    simp [hlast]
  · intro hne
    have hlast := h.root_last (by simp [hframes])
    have hne' : rest.map fst≠[] := by simpa using hne
    rwa [hpath,List.getLast?_cons_of_ne_nil hne'] at hlast
end

theorem push {v u : α} {us us' : List α} {rest : List (α × List α)} (h : Valid succs inside root t)
    (hframes : t.frames=(v,us)::rest) {before : List α} (hbefore : ∀ w ∈ before, w ∈ t.finished)
    (hsuccs : succs v=before++u::us') (hrest : FramesOk succs t.finished (some v) rest) (hu : inside u)
    (hpath : u ∉ t.path) (hfinished : u ∉ t.finished) :
    Valid succs inside root ⟨(u,succs u)::(v,us')::rest,t.finished⟩ := by
  have hpath' : path ⟨(u,succs u)::(v,us')::rest,t.finished⟩=u::t.path := by simp [path,hframes]
  refine ⟨?_,?_,h.topological,⟨⟨[],by simp⟩,⟨before,hbefore,by simpa using hsuccs⟩,hrest⟩,by simp,?_⟩
  · rw [hpath']
    intro w hw
    rcases mem_cons.mp hw with rfl | hw
    · exact hu
    · exact h.inside_of_mem w hw
  · rw [hpath',cons_append,nodup_cons,mem_append]
    exact ⟨not_or.mpr ⟨hpath,hfinished⟩,h.nodup⟩
  · intro _
    have hne : t.path≠[] := by simp [path,hframes]
    rw [hpath',List.getLast?_cons_of_ne_nil hne]
    exact h.root_last (by simp [hframes])
end Search.Valid
variable (succs inside) in
def SearchExit.Correct (root : α) : SearchExit α → Prop
  | complete => ∃ l, Topological succs l ∧ l.Nodup ∧ (∀ v ∈ l, inside v) ∧ root ∈ l
  | backEdge _ _ => ¬Safe succs inside root ∧ ¬RunsOff succs inside root
  | leaves => RunsOff succs inside root

theorem SearchExit.Correct.safe_iff {root : α} {exit : SearchExit α} (h : exit.Correct succs inside root) :
    (exit=.complete ↔ Safe succs inside root) ∧ (exit=.leaves ↔ RunsOff succs inside root) := by
  cases exit with
  | complete =>
    obtain ⟨l,htop,-,hinside,hroot⟩ := h
    have hsafe := htop.safe hinside root hroot
    simp [hsafe,hsafe.not_runsOff]
  | backEdge v u => simp [h.1,h.2]
  | leaves =>
    have hoff : RunsOff succs inside root := h
    have hnot : ¬Safe succs inside root := fun hsafe => hsafe.not_runsOff hoff
    simp [hoff,hnot]
section
variable [DecidableEq α] [DecidablePred inside] {root : α} {t : Search α}
theorem Search.Valid.round (h : t.Valid succs inside root) :
    (∃ exit, t.round succs inside=.error exit ∧ exit.Correct succs inside root) ∨
      ∃ t', t.round succs inside=.ok t' ∧ t'.Valid succs inside root ∧ t'.work=t.work+1 := by
  cases hframes : t.frames with
  | nil =>
    refine .inl ⟨.complete,by simp [Search.round,hframes],t.finished,h.topological,
      (nodup_append.mp h.nodup).2.1,?_,h.root_finished hframes⟩
    exact fun v hv => h.inside_of_mem v (mem_append_right _ hv)
  | cons frame rest =>
    obtain ⟨v,us⟩ := frame
    obtain ⟨⟨before,hbefore,hsuccs⟩,hrest⟩ := h.drop hframes
    have hroot : root ∈ t.path := mem_of_getLast? (h.root_last (by simp [hframes]))
    have hpath : t.path=v::rest.map fst := by rw [Search.path,hframes,map_cons]
    cases hdrop : us.dropWhile (· ∈ t.finished) with
    | nil =>
      rw [hdrop,append_nil] at hsuccs
      refine .inr ⟨⟨rest,v::t.finished⟩,by simp [Search.round,hframes,hdrop],
        h.finish hframes (by simpa [hsuccs] using hbefore) hrest,?_⟩
      simp [Search.work,Search.path,hframes]
      omega
    | cons u us' =>
      rw [hdrop] at hsuccs
      have hfinished : u ∉ t.finished := by
        have hhead := List.head?_dropWhile_not (fun w => decide (w ∈ t.finished)) us
        simpa [hdrop] using hhead
      -- The path continues to `u`, by the first edge that is not known to be safe.
      have hleads : FramesOk succs t.finished (some u) ((v,us')::rest) :=
        ⟨⟨before,hbefore,by simpa using hsuccs⟩,hrest⟩
      have hnodes : ((v,us')::rest).map fst=t.path := by rw [hpath,map_cons]
      by_cases hu : inside u
      · by_cases hmem : u ∈ t.path
        · refine .inl ⟨.backEdge v u,by simp [Search.round,hframes,hdrop,hu,hmem],
            not_safe_of_trapped (S := (· ∈ t.path)) ?_ ?_ hroot⟩
          · exact fun w hw => h.inside_of_mem w (mem_append_left _ hw)
          · intro w hw
            rw [← hnodes] at hw
            obtain ⟨pre,next,post,hw',hpre,hnext⟩ :=
              hleads.leads (S := (· ∈ t.path)) hmem (by simp [hpath]) w hw
            exact ⟨pre,next,post,hw',fun x hx => h.safe x (hpre x hx),hnext⟩
        · refine .inr ⟨⟨(u,succs u)::(v,us')::rest,t.finished⟩,
            by simp [Search.round,hframes,hdrop,hu,hmem],
            h.push hframes hbefore hsuccs hrest hu hmem hfinished,?_⟩
          simp [Search.work,Search.path,hframes]
          omega
      · refine .inl ⟨.leaves,by simp [Search.round,hframes,hdrop,hu],?_⟩
        have hoff := hleads.runsOff h.safe (.outside hu)
        rw [hnodes] at hoff
        exact hoff root hroot

theorem Search.Valid.run {n fuel : Nat} (hsize : ∀ l : List α, l.Nodup → (∀ v ∈ l, inside v) → l.length≤n)
    (h : t.Valid succs inside root) (hfuel : 2*n<t.work+fuel) :
    ∃ exit, t.run succs inside fuel=some exit ∧ exit.Correct succs inside root := by
  induction fuel generalizing t with
  | zero =>
    have hlength := hsize _ h.nodup h.inside_of_mem
    rw [length_append] at hlength
    rw [Search.work] at hfuel
    omega
  | succ fuel ih =>
    rcases h.round with ⟨exit,hround,hexit⟩ | ⟨t',hround,hvalid,hwork⟩
    · exact ⟨exit,by simp [Search.run,hround],hexit⟩
    · obtain ⟨exit,hrun,hexit⟩ := ih hvalid (by omega)
      exact ⟨exit,by simp [Search.run,hround,hrun],hexit⟩
end
end P4Benchmarks.Lib
