import P4Benchmarks.Lib.DepthFirst
import P4Benchmarks.P4rtOvs.UbpfCfg
/-! # The control-flow check is a depth-first search -/
namespace P4Benchmarks.P4rtOvs
open Ebpf Lib List Prod Search
attribute [local simp] Except.bind path Except.pure
variable (insts : List EbpfInst)
def cfgSuccs (v : Nat) : List Nat :=
  match insts[v]? with
  | none => []
  | some inst => (cfgEdges v inst).map fst

abbrev cfgInside (v : Nat) : Prop := v < insts.length

theorem length_le_of_inside {insts : List EbpfInst} {l : List Nat} (hnodup : l.Nodup)
    (hinside : ∀ v ∈ l, cfgInside insts v) : l.length ≤ insts.length := by
  have hsub : l ⊆ List.range insts.length := fun v hv => mem_range.mpr (hinside v hv)
  simpa using (hnodup.subperm hsub).length_le

theorem cfgSuccs_eq {insts : List EbpfInst} {v : Nat} {inst : EbpfInst}
    (h : insts[v]?=some inst) : cfgSuccs insts v=(cfgEdges v inst).map fst := by
  rw [cfgSuccs,h]

theorem rank_cfgEdges {v j : Nat} {inst : EbpfInst} {edge : Nat × EdgeStatus}
    (h : (cfgEdges v inst)[j]?=some edge) : edge.2.rank=j+1 := by
  rw [cfgEdges] at h
  split_ifs at h <;> rcases j with _ | _ | j <;> simp at h <;> subst h <;> rfl

theorem readAt_eq {α : Type} {l : List α} {i : Nat} {a : α} (h : l[i]?=some a) : readAt l i=.ok a := by rw [readAt,h]

theorem readAt_outOfBounds {α : Type} {l : List α} {i : Nat} (h : l.length ≤ i) : readAt l i=.error .outOfBounds := by
  rw [readAt,List.getElem?_eq_none h]

theorem writeAt_eq {α : Type} {l : List α} {i : Nat} {a : α} (h : i<l.length) :
    writeAt l i a=.ok (l.set i a) := if_pos h
section
variable {c : CfgState} {v u : Nat} {branch label : EdgeStatus}
theorem exploreCfgEdge_labeled (hv : c.vertices[v]?=some .discovered) (hlabel : c.edges[v]?=some label)
    (hle : branch.rank≤label.rank) : exploreCfgEdge c v u branch=.ok (c,false) := by
  simp [exploreCfgEdge,readAt_eq hv,readAt_eq hlabel,hle,bind,pure]
variable (hv : c.vertices[v]?=some .discovered) (hlabel : c.edges[v]?=some label) (hlt : label.rank<branch.rank)
include hv hlabel hlt
theorem exploreCfgEdge_outOfBounds (hu : c.vertices.length≤u) : exploreCfgEdge c v u branch=.error .outOfBounds := by
  simp [exploreCfgEdge,readAt_eq hv,readAt_eq hlabel,Nat.not_le.mpr hlt,bind,readAt_outOfBounds hu]

theorem exploreCfgEdge_eq {status : VertexStatus} (hu : c.vertices[u]?=some status) :
    exploreCfgEdge c v u branch=match status with
      | .explored => .ok ({ c with edges := c.edges.set v branch },false)
      | .discovered => .error (.backEdge v u)
      | .undiscovered => .ok ({ c with
        vertices := c.vertices.set u .discovered
        edges := c.edges.set v branch },true) := by
  have hv' := (List.getElem?_eq_some_iff.mp hv)
  have hu' := (List.getElem?_eq_some_iff.mp hu).1
  have hlabel' := (List.getElem?_eq_some_iff.mp hlabel).1
  have hself : c.vertices.set v .discovered=c.vertices := by rw [← hv'.2,set_getElem_self]
  cases status <;> simp [exploreCfgEdge,readAt_eq hv,readAt_eq hlabel,Nat.not_le.mpr hlt,bind,
    readAt_eq hu,writeAt_eq hv'.1,writeAt_eq hlabel',writeAt_eq hu',hself,pure,throw,throwThe,MonadExceptOf.throw]
end

structure Represents (insts : List EbpfInst) (c : CfgState) (t : Search Nat) : Prop where
  s_length : c.s.length=insts.length
  vertices_length : c.vertices.length=insts.length
  edges_length : c.edges.length=insts.length
  depth_eq : c.depth=t.frames.length
  stack : c.s.take c.depth=t.path.reverse
  explored : ∀ v ∈ t.finished, c.vertices[v]?=some .explored
  discovered : ∀ v ∈ t.path, c.vertices[v]?=some .discovered
  undiscovered : ∀ v < insts.length, v ∉ t.path → v ∉ t.finished →
    c.vertices[v]?=some .undiscovered ∧ c.edges[v]?=some .unlabeled
  labels : ∀ f ∈ t.frames, ∃ label, c.edges[f.1]?=some label ∧ f.2=(cfgSuccs insts f.1).drop label.rank
namespace Represents
variable {insts : List EbpfInst} {c : CfgState} {finished : List Nat} {v u : Nat} {us : List Nat}
  {rest : List (Nat × List Nat)} {label branch : EdgeStatus}

theorem vertex_lt {t : Search Nat} (h : Represents insts c t) (hv : v ∈ t.path) : v < insts.length := by
  have hlt := (List.getElem?_eq_some_iff.mp (h.discovered v hv)).1
  rwa [h.vertices_length] at hlt

theorem remaining {inst : EbpfInst} (h : Represents insts c ⟨(v,us)::rest,finished⟩) (hinst : insts[v]?=some inst)
    (hlabel : c.edges[v]?=some label) : us=((cfgEdges v inst).map fst).drop label.rank := by
  obtain ⟨label',hlabel',hus⟩ := h.labels (v,us) mem_cons_self
  obtain rfl : label'=label := Option.some.inj (hlabel'.symm.trans hlabel)
  rwa [cfgSuccs_eq hinst] at hus

theorem labelEdge (h : Represents insts c ⟨(v,u::us)::rest,finished⟩)
    (hnodup : (v::rest.map fst).Nodup) (hlabel : c.edges[v]?=some label)
    (hbranch : branch.rank=label.rank+1) :
    Represents insts { c with edges := c.edges.set v branch } ⟨(v,us)::rest,finished⟩ := by
  have hlt := (List.getElem?_eq_some_iff.mp hlabel).1
  refine ⟨h.s_length,h.vertices_length,by simpa using h.edges_length,h.depth_eq,h.stack,h.explored,h.discovered,?_,?_⟩
  · intro w hw hpath hfinished
    have hne : v≠w := by
      rintro rfl
      exact hpath (by simp)
    rw [List.getElem?_set_ne hne]
    exact h.undiscovered w hw hpath hfinished
  · intro f hf
    rcases mem_cons.mp hf with rfl | hf
    · obtain ⟨label',hlabel',hdrop⟩ := h.labels (v,u::us) mem_cons_self
      obtain rfl : label'=label := Option.some.inj (hlabel'.symm.trans hlabel)
      refine ⟨branch,by simp [hlt],?_⟩
      rw [hbranch,← tail_drop,← hdrop]
      rfl
    · have hne : v≠f.1 := fun heq =>
        (nodup_cons.mp hnodup).1 (heq ▸ mem_map_of_mem hf)
      rw [List.getElem?_set_ne hne]
      exact h.labels f (mem_cons_of_mem _ hf)

theorem push (h : Represents insts c ⟨(v,us)::rest,finished⟩) (hu : u < insts.length)
    (hpath : u ∉ v::rest.map fst) (hfinished : u ∉ finished)
    (hdepth : c.depth < insts.length) :
    Represents insts
      { c with
        s := c.s.set c.depth u
        vertices := c.vertices.set u .discovered
        depth := c.depth+1 }
      ⟨(u,cfgSuccs insts u)::(v,us)::rest,finished⟩ := by
  have hnew := h.undiscovered u hu hpath hfinished
  refine ⟨by simpa using h.s_length,by simpa using h.vertices_length,h.edges_length,by simp [h.depth_eq],?_,?_,?_,?_,?_⟩
  · have hstack := h.stack
    have hlt : c.depth<(c.s.set c.depth u).length := by
      rw [length_set,h.s_length]
      exact hdepth
    rw [← take_append_getElem hlt,take_set_of_le le_rfl,hstack]
    simp
  · intro w hw
    have hne : u≠w := by
      rintro rfl
      exact hfinished hw
    rw [List.getElem?_set_ne hne]
    exact h.explored w hw
  · intro w hw
    by_cases huw : u=w
    · subst huw
      rw [List.getElem?_set_self (by rwa [h.vertices_length])]
    · rw [List.getElem?_set_ne huw]
      refine h.discovered w ?_
      simpa [Ne.symm huw] using hw
  · intro w hw hpath' hfinished'
    have hne : u≠w := by
      rintro rfl
      exact hpath' (by simp)
    rw [List.getElem?_set_ne hne]
    refine h.undiscovered w hw (fun hmem => hpath' ?_) hfinished'
    exact mem_cons_of_mem u hmem
  · intro f hf
    rcases mem_cons.mp hf with rfl | hf
    · exact ⟨.unlabeled,hnew.2,rfl⟩
    · exact h.labels f hf

theorem pop (h : Represents insts c ⟨(v,us)::rest,finished⟩) (hnodup : (v::rest.map fst).Nodup) : Represents insts
      { c with
        vertices := c.vertices.set v .explored
        depth := c.depth-1 }
      ⟨rest,v::finished⟩ := by
  have hlt : v < c.vertices.length := by
    rw [h.vertices_length]
    exact h.vertex_lt (by simp)
  have hdepth := h.depth_eq
  refine ⟨h.s_length,by simpa using h.vertices_length,h.edges_length,by simp [hdepth],?_,?_,?_,
    ?_,fun f hf => h.labels f (mem_cons_of_mem _ hf)⟩
  · have hstack := congrArg (List.take (c.depth-1)) h.stack
    rw [take_take,Nat.min_eq_left (Nat.sub_le ..)] at hstack
    rw [hstack]
    simp [hdepth]
  · intro w hw
    by_cases hvw : v=w
    · subst hvw
      rw [List.getElem?_set_self hlt]
    · rw [List.getElem?_set_ne hvw]
      refine h.explored w ?_
      simpa [Ne.symm hvw] using hw
  · intro w hw
    have hne : v≠w := by
      rintro rfl
      exact (nodup_cons.mp hnodup).1 hw
    rw [List.getElem?_set_ne hne]
    exact h.discovered w (mem_cons_of_mem v hw)
  · intro w hw hpath hfinished
    have hne : w≠v := fun heq => hfinished (by simp [heq])
    rw [List.getElem?_set_ne (Ne.symm hne)]
    refine h.undiscovered w hw (fun hmem => ?_) fun hmem => hfinished (mem_cons_of_mem v hmem)
    rcases mem_cons.mp hmem with heq | hmem
    · exact hne heq
    · exact hpath hmem
end Represents

def cfgExit : SearchExit Nat → CfgExit
  | .complete => .accepted
  | .backEdge v u => .backEdge v u
  | .leaves => .outOfBounds

@[local simp] def Matches : Except CfgExit CfgState → Except (SearchExit Nat) (Search Nat) → Prop
  | .ok c, .ok t => Represents insts c t
  | .error exit, .error exit' => exit=cfgExit exit'
  | _, _ => False
section
variable {insts : List EbpfInst} {c : CfgState} {finished : List Nat} {v : Nat} {us : List Nat}
  {rest : List (Nat × List Nat)}

theorem visitEdges_matches {inst : EbpfInst} {passed edges : List (Nat × EdgeStatus)} {label : EdgeStatus}
    (hinst : insts[v]?=some inst) (h : Represents insts c ⟨(v,us)::rest,finished⟩)
    (hnodup : ((v::rest.map fst)++finished).Nodup) (hinside : ∀ w ∈ (v::rest.map fst)++finished, w < insts.length)
    (hedges : cfgEdges v inst=passed++edges) (hlabel : c.edges[v]?=some label) (hpassed : passed.length≤label.rank) :
    Matches insts (visitEdges c v edges) (Search.round (cfgSuccs insts) (cfgInside insts) ⟨(v,us)::rest,finished⟩) := by
  have hpath := (nodup_append.mp hnodup).1
  induction edges generalizing c us passed label with
  | nil =>
    have hnil : us=[] := by
      rw [h.remaining hinst hlabel,hedges]
      simpa using hpassed
    have hlt := (List.getElem?_eq_some_iff.mp (h.discovered v (by simp))).1
    subst hnil
    simpa [visitEdges,Search.round,writeAt_eq hlt,bind,pure] using h.pop hpath
  | cons edge edges ih =>
    obtain ⟨u,branch⟩ := edge
    have hv := h.discovered v (by simp)
    have hrank : branch.rank=passed.length+1 := by
      refine @rank_cfgEdges v passed.length inst (u,branch) ?_
      rw [hedges]
      simp
    have hedges' : cfgEdges v inst=(passed++[(u,branch)])++edges := by simpa using hedges
    by_cases hdone : branch.rank≤label.rank
    · -- The edge has its label from an earlier round.
      simp only [visitEdges,exploreCfgEdge_labeled hv hlabel hdone,bind,Except.bind]
      refine ih h hedges' hlabel ?_
      simpa [hrank] using hdone
    have hlt := Nat.not_le.mp hdone
    have heq : label.rank=passed.length := by omega
    have hus : us=u::edges.map fst := by
      rw [h.remaining hinst hlabel,hedges,heq]
      simp
    subst hus
    have hlabeled := h.labelEdge hpath hlabel (by omega : branch.rank=label.rank+1)
    by_cases hu : u < insts.length
    · by_cases hfinished : u ∈ finished
      · have hlabel' : (c.edges.set v branch)[v]?=some branch := by simp [(List.getElem?_eq_some_iff.mp hlabel).1]
        simp only [visitEdges,exploreCfgEdge_eq hv hlabel hlt (h.explored u hfinished),bind,Except.bind]
        rw [round_skip hfinished]
        refine ih hlabeled hedges' hlabel' ?_
        rw [hrank,length_append]
        exact le_rfl
      · by_cases hmem : u ∈ v::rest.map fst
        · simp only [visitEdges,exploreCfgEdge_eq hv hlabel hlt (h.discovered u hmem),bind,
            Except.bind]
          rw [round_backEdge hfinished hu hmem]
          rfl
        · have hdepth : c.depth < insts.length := by
            have hlength := length_le_of_inside (nodup_cons.mpr ⟨hmem,hpath⟩) fun w hw => by
              rcases mem_cons.mp hw with rfl | hw
              · exact hu
              · exact hinside w (mem_append_left _ hw)
            rw [length_cons,length_cons,length_map] at hlength
            rw [h.depth_eq,length_cons]
            exact hlength
          have hnew := (h.undiscovered u hu hmem hfinished).1
          simp only [visitEdges,exploreCfgEdge_eq hv hlabel hlt hnew,bind,Except.bind]
          rw [round_push hfinished hu hmem]
          simpa [writeAt_eq,h.s_length,hdepth,pure] using hlabeled.push hu hmem hfinished hdepth
    · have hlen : c.vertices.length≤u := by
        rw [h.vertices_length]
        exact Nat.not_lt.mp hu
      have hfinished : u ∉ finished := fun hmem =>
        hu (hinside u (mem_append_right _ hmem))
      simp only [visitEdges,exploreCfgEdge_outOfBounds hv hlabel hlt hlen,bind,Except.bind]
      rw [round_leaves hfinished hu]
      rfl
end
section
variable {insts : List EbpfInst} {c : CfgState} {t : Search Nat} (h : Represents insts c t)
  (hvalid : t.Valid (cfgSuccs insts) (cfgInside insts) 0)
include h hvalid
theorem cfgRound_matches : Matches insts (cfgRound insts c) (t.round (cfgSuccs insts) (cfgInside insts)) := by
  obtain ⟨frames,finished⟩ := t
  cases frames with
  | nil =>
    have hdepth : c.depth=0 := h.depth_eq
    simp [cfgRound,hdepth,Search.round,throw,throwThe,MonadExceptOf.throw,bind,cfgExit]
  | cons frame rest =>
    obtain ⟨v,us⟩ := frame
    have hdepth : c.depth=rest.length+1 := h.depth_eq
    have htop : c.s[rest.length]?=some v := by
      have hstack := congrArg (·[rest.length]?) h.stack
      simpa [hdepth] using hstack
    have hlt := h.vertex_lt (v := v) (by simp)
    have hinst : insts[v]?=some insts[v] := List.getElem?_eq_getElem hlt
    obtain ⟨label,hlabel,-⟩ := h.labels (v,us) mem_cons_self
    have hvisit := visitEdges_matches hinst h hvalid.nodup hvalid.inside_of_mem
      (nil_append (cfgEdges v insts[v])).symm hlabel (Nat.zero_le _)
    simpa [cfgRound,hdepth,readAt_eq htop,readAt_eq hinst,bind,pure] using hvisit

theorem cfgLoop_eq {fuel : Nat} : cfgLoop insts fuel c=(t.run (cfgSuccs insts) (cfgInside insts) fuel).map cfgExit := by
  induction fuel generalizing c t with
  | zero => rfl
  | succ fuel ih =>
    have hmatches := cfgRound_matches h hvalid
    rcases hvalid.round with ⟨exit,hround,-⟩ | ⟨t',hround,hvalid',-⟩
    · rw [hround] at hmatches
      cases hcode : cfgRound insts c with
      | ok c' => simp [hcode] at hmatches
      | error exit' =>
        rw [hcode] at hmatches
        simp [cfgLoop,run,hcode,hround,show exit'=cfgExit exit from hmatches]
    · rw [hround] at hmatches
      cases hcode : cfgRound insts c with
      | ok c' =>
        rw [hcode] at hmatches
        simp [cfgLoop,run,hcode,hround,ih hmatches hvalid']
      | error exit' => simp [hcode] at hmatches
end

theorem represents_start {insts : List EbpfInst} (h : 0 < insts.length) :
    ∃ c, cfgStart insts.length=.ok c ∧ Represents insts c ⟨[(0,cfgSuccs insts 0)],[]⟩ := by
  refine ⟨⟨(List.replicate insts.length 0).set 0 0,(List.replicate insts.length .undiscovered).set 0 .discovered,
    List.replicate insts.length .unlabeled,1⟩,?_,?_⟩
  · simp [cfgStart,writeAt_eq,h,bind,pure]
  · refine ⟨by simp,by simp,by simp,rfl,?_,by simp,?_,?_,?_⟩
    · cases hlen : insts.length with
      | zero => omega
      | succ n => simp [replicate_succ]
    · simp [h]
    · intro v hv hpath _
      have hne : 0≠v := by
        rintro rfl
        exact hpath (by simp)
      rw [List.getElem?_set_ne hne]
      simp [hv]
    · simp [h,EdgeStatus.rank]

theorem validateCfg_spec : ∃ exit, validateCfg insts=some exit ∧
      (exit=.accepted → ∃ l, Topological (cfgSuccs insts) l ∧ l.Nodup ∧ (∀ v ∈ l, cfgInside insts v) ∧ 0 ∈ l) ∧
      (exit=.outOfBounds ↔ RunsOff (cfgSuccs insts) (cfgInside insts) 0) := by
  rcases Nat.eq_zero_or_pos insts.length with hzero | hpos
  · refine ⟨.outOfBounds,by simp [validateCfg,cfgStart,writeAt,hzero,bind],
      by simp,?_⟩
    simp only [true_iff]
    exact .outside (by simp [cfgInside,hzero])
  · obtain ⟨c,hstart,hrep⟩ := represents_start hpos
    have hvalid : Search.Valid (cfgSuccs insts) (cfgInside insts) 0 ⟨[(0,cfgSuccs insts 0)],[]⟩ := .start hpos
    have hfuel : 2*insts.length < work ⟨[(0,cfgSuccs insts 0)],[]⟩+2*insts.length := by simp [work]
    obtain ⟨exit,hrun,hcorrect⟩ := hvalid.run (fun l => length_le_of_inside) hfuel
    refine ⟨cfgExit exit,?_,?_,?_⟩
    · rw [validateCfg,hstart]
      simp only
      rw [cfgLoop_eq hrep hvalid,hrun,Option.map_some]
    · intro haccepted
      cases exit with
      | complete => exact hcorrect
      | backEdge v u | leaves => cases haccepted
    · rw [← hcorrect.safe_iff.2]
      cases exit <;> simp [cfgExit]
end P4Benchmarks.P4rtOvs
