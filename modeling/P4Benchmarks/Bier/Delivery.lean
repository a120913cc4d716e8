import P4Benchmarks.Bier.Network
/-! # BIER: every addressed BFR gets one copy -/
namespace P4Benchmarks.Bier
open Lib Multiset Finset Bier.Topology Network Multicast Option
variable {V : Type} [DecidableEq V] {T : Topology V} {protection : Protection}
def Pending.targets (T : Topology V) (c : Pending V) : Finset V :=
  T.nodes.toFinset.filter fun v => T.Has c.remainingBits v ∧ (T.paths c.node v).isSome

def Pending.abstract (T : Topology V) (c : Pending V) : Multicast.Copy V := ⟨c.node,c.targets T⟩

def Network.abstract (T : Topology V) (n : Network V) : Multicast.Config V :=
  ⟨n.pending.map (Pending.abstract T),n.decapsulated⟩
variable {c : Pending V}
theorem Pending.mem_targets {v : V} : v ∈ c.targets T ↔ T.Has c.remainingBits v ∧ (T.paths c.node v).isSome := by
  rw [Pending.targets,Finset.mem_filter,List.mem_toFinset,and_iff_right (T.mem_nodes v)]

/-- A BIER packet whose remaining bits are bits of the packet, with all or none of those behind a
next hop. -/
structure Pending.Grouped (T : Topology V) (c : Pending V) : Prop where
  bier : c.packet.etherType=typeBier ∧ c.packet.bierValid
  subset : ∀ v, T.Has c.remainingBits v → T.Has c.packet.bitString v
  group : ∀ v v' w, T.getNextHop c.node v=some w → T.getNextHop c.node v'=some w →
    T.Has c.remainingBits v → T.Has c.packet.bitString v' → T.Has c.remainingBits v'

theorem Pending.grouped_fresh {u : V} {p : Packet}
    (hp : p.etherType=typeBier ∧ p.bierValid) : Pending.Grouped T ⟨u,p,.fresh⟩ :=
  ⟨hp,fun _ h => h,fun _ _ _ _ _ _ h => h⟩

def Pending.without (c : Pending V) (mask : BitVec 64) : Pending V :=
  ⟨c.node,c.packet,(c.metadata.setMetaData c.packet).remove mask⟩

theorem Metadata.setMetaData_mdValid (m : Metadata) (p : Packet) : (m.setMetaData p).mdValid := by
  unfold Metadata.setMetaData
  split_ifs with h
  · exact h
  · rfl
omit [DecidableEq V] in
theorem Pending.remainingBits_without (c : Pending V) (mask : BitVec 64) :
    (c.without mask).remainingBits=c.remainingBits&&&~~~mask := by
  have hvalid : ((c.metadata.setMetaData c.packet).remove mask).mdValid := Metadata.setMetaData_mdValid _ _
  rw [Pending.remainingBits,Pending.without,Metadata.setMetaData,if_pos hvalid]
  rfl
variable {mask : BitVec 64}
theorem Pending.has_without {v : V} :
    T.Has (c.without mask).remainingBits v ↔ T.Has c.remainingBits v ∧ ¬T.Has mask v := by
  rw [remainingBits_without,has_and_not]

theorem Pending.Grouped.without (h : c.Grouped T)
    (hmask : ∀ v v' w, T.getNextHop c.node v=some w → T.getNextHop c.node v'=some w →
      T.Has mask v' → T.Has mask v) : (c.without mask).Grouped T := by
  refine ⟨h.bier,?_,?_⟩
  · intro v hv
    exact h.subset v (has_without.mp hv).1
  · intro v v' w hw hw' hv hv'
    obtain ⟨hbit,hnot⟩ := has_without.mp hv
    exact has_without.mpr ⟨h.group v v' w hw hw' hbit hv',fun hm => hnot (hmask v v' w hw hw' hm)⟩

theorem Pending.cloned_cases {i : Ingress} (hi : i.clone=some ((c.metadata.setMetaData c.packet).remove mask)) :
    c.cloned i={c.without mask} ∨ c.cloned i=0 ∧ (c.without mask).targets T = ∅ := by
  rw [Pending.cloned,hi]
  by_cases hbits : cloneRecirculates ((c.metadata.setMetaData c.packet).remove mask)
  · exact Or.inl (if_pos hbits)
  · refine Or.inr ⟨if_neg hbits,?_⟩
    rw [eq_empty_iff_forall_notMem]
    intro v hv
    have hbit := (mem_targets.mp hv).1
    have hzero : (c.without mask).remainingBits=0 := by
      rw [remainingBits_without]
      exact not_not.mp hbits
    rw [hzero] at hbit
    simp [Topology.Has] at hbit

theorem steps_cloned {i : Ingress} {s : Multicast.Config V} {rest : Multiset (Multicast.Copy V)}
    {delivered : Multiset V} (hi : i.clone=some ((c.metadata.setMetaData c.packet).remove mask))
    (h : Relation.TransGen (Multicast.Step T.routing) s ⟨(c.without mask).abstract T ::ₘ rest,delivered⟩) :
    Relation.TransGen (Multicast.Step T.routing) s ⟨(c.cloned i).map (Pending.abstract T)+rest,delivered⟩ := by
  rcases c.cloned_cases (T := T) hi with hclone | ⟨hclone,hempty⟩
  · rw [hclone,Multiset.map_singleton,Multiset.singleton_add]
    exact h
  · rw [hclone,Multiset.map_zero,zero_add]
    rw [Pending.abstract,hempty] at h
    exact h.tail .discard

theorem Topology.peer_port {u w : V} {outPort : Nat} (h : T.port u w=some outPort) :
    T.peer u (.ofNat 9 outPort)=some w := by
  have hrange := T.port_range u w outPort h
  have htoNat : (BitVec.ofNat 9 outPort).toNat=outPort := by
    rw [BitVec.toNat_ofNat]
    omega
  have hsome : (T.peer u (.ofNat 9 outPort)).isSome := by
    rw [peer,List.find?_isSome]
    exact ⟨w,T.mem_nodes w,by simp [htoNat,h]⟩
  obtain ⟨w',hw'⟩ := isSome_iff_exists.mp hsome
  have hfound := List.find?_some hw'
  have hport := of_decide_eq_true hfound
  rw [htoNat] at hport
  rw [hw',T.port_injective u w' w outPort hport h]

theorem Topology.peer_zero (T : Topology V) (u : V) : T.peer u 0=none := by
  rw [peer,List.find?_eq_none]
  intro w _ hw
  have hrange := T.port_range u w 0 (of_decide_eq_true hw)
  omega

theorem targets_forwarded (hc : c.Grouped T) {v w : V}
    (hw : T.getNextHop c.node v=some w) (hv : T.Has c.remainingBits v) :
    Pending.targets T ⟨w,{ c.packet with
        bitString := c.packet.bitString&&&getFbm (T.buildBirt c.node) (T.ip w) },.fresh⟩ =
      behind T.routing c.node w (c.targets T) := by
  ext x
  rw [Pending.mem_targets,behind,Finset.mem_filter,Pending.mem_targets]
  change T.Has (c.packet.bitString&&&getFbm (T.buildBirt c.node) (T.ip w)) x ∧ _ ↔ _
  rw [has_and,has_getFbm]
  constructor
  · rintro ⟨⟨hbit,hx⟩,-⟩
    exact ⟨⟨hc.group v x w hw hx hv hbit,paths_isSome_of_getNextHop hx⟩,hx⟩
  · rintro ⟨⟨hbit,-⟩,hx⟩
    exact ⟨⟨hc.subset x hbit,hx⟩,paths_isSome_behind hx⟩

theorem targets_without_fbm (c : Pending V) (w : V) : (c.without (getFbm (T.buildBirt c.node) (T.ip w))).targets T =
      c.targets T \ behind T.routing c.node w (c.targets T) := by
  ext x
  rw [mem_sdiff,behind,Finset.mem_filter,Pending.mem_targets,Pending.mem_targets,Pending.has_without,has_getFbm]
  change _ ∧ (T.paths c.node x).isSome ↔ _ ∧ ¬(_ ∧ T.getNextHop c.node x=some w)
  tauto

theorem targets_without_own (c : Pending V) :
    (c.without (idToBitstring 64 (T.bfrId c.node))).targets T=(c.targets T).erase c.node := by
  ext x
  rw [mem_erase,Pending.mem_targets,Pending.mem_targets,Pending.has_without,has_idToBitstring]
  change _ ∧ (T.paths c.node x).isSome ↔ _
  tauto

theorem targets_of_no_match (h : Selects T protection c none) : c.targets T = ∅ := by
  rw [eq_empty_iff_forall_notMem]
  intro v hv
  obtain ⟨hbit,hpath⟩ := Pending.mem_targets.mp hv
  by_cases hself : v=c.node
  · subst hself
    obtain ⟨hmem,hmatches⟩ := (T.matches_bift_iff protection c.node c.remainingBits _).mpr (Or.inl ⟨rfl,hbit⟩)
    exact h _ hmem hmatches
  · obtain ⟨w,hw⟩ := exists_getNextHop hpath hself
    obtain ⟨-,-,hport,-⟩ := isPath_behind hw
    obtain ⟨outPort,hport⟩ := isSome_iff_exists.mp hport
    obtain ⟨hmem,hmatches⟩ := (T.matches_bift_iff protection c.node c.remainingBits _).mpr
      (Or.inr ⟨v,w,outPort,hw,hport,rfl,hbit⟩)
    exact h _ hmem hmatches

theorem selects_cases {action : Option Action} (h : Selects T protection c action) :
    (∃ v w outPort, T.getNextHop c.node v=some w ∧ T.port c.node w=some outPort ∧ T.Has c.remainingBits v ∧
      action=some (.forward (getFbm (T.buildBirt c.node) (T.ip w)) (.ofNat 9 outPort))) ∨
    (T.Has c.remainingBits c.node ∧ action=some (.decap (idToBitstring 64 (T.bfrId c.node)))) ∨
    (c.targets T = ∅ ∧ action=none) := by
  cases action with
  | none => exact Or.inr (Or.inr ⟨targets_of_no_match h,rfl⟩)
  | some a =>
    obtain ⟨e,hmem,hmatches,rfl⟩ := h
    rcases (T.matches_bift_iff protection c.node c.remainingBits e).mp ⟨hmem,hmatches⟩ with
      ⟨rfl,hbit⟩ | ⟨v,w,outPort,hw,hport,rfl,hbit⟩
    · exact Or.inr (Or.inl ⟨hbit,rfl⟩)
    · exact Or.inl ⟨v,w,outPort,hw,hport,hbit,rfl⟩
section
variable {c : Pending V} {w : V} {fbm decapBit : BitVec 64} {outPort : Nat}
theorem sent_forward (hport : T.port c.node w=some outPort) :
    c.sent T (bierIngress c.packet c.metadata (some (.forward fbm (.ofNat 9 outPort)))) =
      {⟨w,{ c.packet with bitString := c.packet.bitString&&&fbm },.fresh⟩} := by
  simp only [Pending.sent,bierIngress,Action.apply,Bool.false_eq_true,if_false,peer_port hport]

theorem sent_none : c.sent T (bierIngress c.packet c.metadata none)=0 := by
  simp only [Pending.sent,bierIngress,Bool.false_eq_true,if_false,peer_zero]

theorem sent_decap : c.sent T (bierIngress c.packet c.metadata (some (.decap decapBit)))=0 := rfl
omit [DecidableEq V] in
theorem decapsulations_add (l r : Multiset (V × Packet)) : decapsulations (l+r)=decapsulations l+decapsulations r := by
  rw [decapsulations,filter_add,Multiset.map_add]
  rfl
omit [DecidableEq V] in
theorem decapsulations_decap : decapsulations
    (c.left (bierIngress c.packet c.metadata (some (.decap decapBit))))={c.node} := by
  simp [decapsulations,Pending.left,bierIngress,Action.apply,Multiset.filter_singleton]

theorem grouped_cloned {i : Ingress} {mask : BitVec 64} (hc : c.Grouped T)
    (hi : i.clone=some ((c.metadata.setMetaData c.packet).remove mask))
    (hmask : ∀ v v' w, T.getNextHop c.node v=some w → T.getNextHop c.node v'=some w →
      T.Has mask v' → T.Has mask v) : ∀ c' ∈ c.cloned i, c'.Grouped T := by
  intro c' hc'
  rcases c.cloned_cases (T := T) hi with hclone | ⟨hclone,-⟩
  · rw [hclone,Multiset.mem_singleton] at hc'
    rw [hc']
    exact hc.without hmask
  · rw [hclone] at hc'
    exact absurd hc' (notMem_zero c')
end
variable {n n' : Network V}
theorem grouped_step (hstep : Step T protection n n')
    (h : ∀ c ∈ n.pending, c.Grouped T) : ∀ c ∈ n'.pending, c.Grouped T := by
  cases hstep with
  | @process c rest recirculated hbier action hselects =>
    have hc := h c (Multiset.mem_cons_self c rest)
    intro c' hc'
    rw [Multiset.mem_add,Multiset.mem_add] at hc'
    rcases hc' with hnew | hold
    · rcases selects_cases hselects with ⟨v,w,outPort,hw,hport,hv,rfl⟩ | ⟨hv,rfl⟩ |
        ⟨-,rfl⟩
      · rw [sent_forward hport,Multiset.mem_singleton] at hnew
        rcases hnew with hclone | rfl
        · refine grouped_cloned hc rfl ?_ c' hclone
          intro x x' y hx hx' hbit
          rw [has_getFbm] at hbit ⊢
          rw [hx,← hx',hbit]
        · exact Pending.grouped_fresh hc.bier
      · rw [sent_decap,or_iff_left (notMem_zero c')] at hnew
        refine grouped_cloned hc rfl ?_ c' hnew
        intro x x' y hx hx' hbit
        rw [has_idToBitstring.mp hbit,getNextHop_self] at hx'
        cases hx'
      · rw [sent_none] at hnew
        exact absurd hnew (by rintro (h | h) <;> exact notMem_zero c' h)
    · exact h c' (Multiset.mem_cons_of_mem hold)

theorem step_simulated (hstep : Step T protection n n') (h : ∀ c ∈ n.pending, c.Grouped T) :
    Relation.TransGen (Multicast.Step T.routing) (n.abstract T) (n'.abstract T) := by
  cases hstep with
  | @process c rest recirculated hbier action hselects =>
    have hc := h c (Multiset.mem_cons_self c rest)
    simp only [abstract,decapsulated,Multiset.map_cons,Multiset.map_add,decapsulations_add,add_assoc]
    rcases selects_cases hselects with ⟨v,w,outPort,hw,hport,hv,rfl⟩ | ⟨hv,rfl⟩ |
      ⟨hempty,rfl⟩
    · have htarget : v ∈ c.targets T := Pending.mem_targets.mpr ⟨hv,paths_isSome_of_getNextHop hw⟩
      have hforward : Multicast.Step T.routing
          ⟨c.abstract T ::ₘ rest.map (Pending.abstract T),decapsulations recirculated⟩ _ :=
        .forward htarget hw
      rw [← targets_without_fbm,← targets_forwarded hc hw hv] at hforward
      rw [sent_forward hport,Multiset.map_singleton,Multiset.singleton_add]
      refine steps_cloned rfl (.single ?_)
      rw [show decapsulations (c.left _)=0 from rfl,zero_add]
      exact hforward
    · have htarget : c.node ∈ c.targets T := Pending.mem_targets.mpr ⟨hv,by rw [paths_self]; rfl⟩
      have hdeliver : Multicast.Step T.routing
          ⟨c.abstract T ::ₘ rest.map (Pending.abstract T),decapsulations recirculated⟩ _ :=
        .deliver htarget
      rw [← targets_without_own] at hdeliver
      rw [sent_decap,Multiset.map_zero,zero_add,decapsulations_decap,Multiset.singleton_add]
      exact steps_cloned rfl (.single hdeliver)
    · rw [sent_none,Pending.abstract,hempty,show c.cloned (bierIngress _ _ none)=0 from rfl,
        show decapsulations (c.left (bierIngress _ _ none))=0 from rfl,Multiset.map_zero,zero_add,
        zero_add,zero_add]
      exact .single .discard

theorem run_served (hrun : Relation.ReflTransGen (Step T protection) n n') (h : ∀ c ∈ n.pending, c.Grouped T) :
    (∀ c ∈ n'.pending, c.Grouped T) ∧ (n'.abstract T).served=(n.abstract T).served := by
  induction hrun with
  | refl => exact ⟨h,rfl⟩
  | tail _ hstep ih =>
    exact ⟨grouped_step hstep ih.1,(served_eq_of_steps (step_simulated hstep ih.1)).trans ih.2⟩
variable (protection : Protection)
theorem step_acc {n : Network V} (h : ∀ c ∈ n.pending, c.Grouped T) : Acc (fun a b => Step T protection b a) n := by
  induction hwork : (n.abstract T).work T.routing using Nat.strong_induction_on generalizing n with
  | _ k ih =>
    refine Acc.intro n ?_
    intro n' hstep
    have hlt := work_lt_of_steps (step_simulated hstep h)
    exact ih _ (hwork ▸ hlt) (grouped_step hstep h) rfl

theorem exists_step {n : Network V} (h : ∀ c ∈ n.pending, c.Grouped T)
    (hne : n.pending≠0) : ∃ n', Step T protection n n' := by
  obtain ⟨pending,recirculated⟩ := n
  obtain ⟨c,hc⟩ := exists_mem_of_ne_zero hne
  obtain ⟨rest,rfl⟩ := exists_cons_of_mem hc
  have hbier := (h c hc).bier.1
  by_cases hmatch : ∃ e ∈ T.bift protection c.node, e.Matches c.remainingBits allUp
  · obtain ⟨e,he,hmatches⟩ := hmatch
    exact ⟨_,.process hbier (some e.action) ⟨e,he,hmatches,rfl⟩⟩
  · exact ⟨_,.process hbier none fun e he hmatches => hmatch ⟨e,he,hmatches⟩⟩

theorem exists_complete {n : Network V} (h : ∀ c ∈ n.pending, c.Grouped T) :
    ∃ n', Relation.ReflTransGen (Step T protection) n n' ∧ n'.pending=0 := by
  induction step_acc protection h with
  | intro n _ ih =>
    by_cases hne : n.pending=0
    · exact ⟨n,.refl,hne⟩
    · obtain ⟨n₁,hstep⟩ := exists_step protection h hne
      obtain ⟨n',hrun,hdone⟩ := ih n₁ hstep (grouped_step hstep h)
      exact ⟨n',.head hstep hrun,hdone⟩

def Topology.Reachable (T : Topology V) (u v : V) : Prop := ∃ l, IsPath T.port l u v

theorem Topology.paths_isSome_iff {u v : V} : (T.paths u v).isSome ↔ T.Reachable u v := by
  constructor
  · intro h
    obtain ⟨l,hl⟩ := isSome_iff_exists.mp h
    exact ⟨l,(T.shortest u v l hl).1⟩
  · rintro ⟨l,hl⟩
    exact T.complete u v l hl

theorem abstract_entering (T : Topology V) (u : V) (p : Packet) :
    ((entering u p).abstract T).served=(Pending.targets T ⟨u,p,.fresh⟩).val := by
  simp [Multicast.Config.served,abstract,entering,decapsulated,decapsulations,Pending.abstract]

/-- Whatever the order of processing and the choice of entries: the run of a BIER packet ends, a BFR
decapsulates at most one copy, and none if it is not addressed or not reachable; in the end all
reachable BFRs with their bit set have decapsulated one. -/
theorem decapsulated_exactly_once (T : Topology V) (protection : Protection) {u : V} {p : Packet}
    (hp : p.etherType=typeBier ∧ p.bierValid) {n : Network V}
    (hrun : Relation.ReflTransGen (Step T protection) (entering u p) n) :
    Acc (fun a b => Step T protection b a) n ∧
    (∃ n', Relation.ReflTransGen (Step T protection) n n' ∧ n'.pending=0) ∧
    (∀ v, n.decapsulated.count v≤1) ∧
    (∀ v, 0<n.decapsulated.count v → T.Has p.bitString v ∧ T.Reachable u v) ∧
    (n.pending=0 → ∀ v, T.Has p.bitString v → T.Reachable u v → n.decapsulated.count v=1) := by
  have hentering : ∀ c ∈ (entering u p).pending, c.Grouped T := by
    intro c hc
    rw [Multiset.mem_singleton.mp hc]
    exact Pending.grouped_fresh hp
  obtain ⟨hgrouped,hserved⟩ := run_served hrun hentering
  rw [abstract_entering] at hserved
  have htargets (v : V) : v ∈ (Pending.targets T ⟨u,p,.fresh⟩) ↔ T.Has p.bitString v ∧ T.Reachable u v := by
    rw [Pending.mem_targets,paths_isSome_iff]
    rfl
  have hle : n.decapsulated≤(Pending.targets T ⟨u,p,.fresh⟩).val := by
    rw [← hserved]
    exact Multiset.le_add_right _ _
  refine ⟨step_acc protection hgrouped,exists_complete protection hgrouped,?_,?_,?_⟩
  · intro v
    exact nodup_iff_count_le_one.mp (nodup_of_le hle (Finset.nodup _)) v
  · intro v hv
    exact (htargets v).mp (mem_of_le hle (count_pos.mp hv))
  · intro hdone v hbit hreach
    have hdelivered : n.decapsulated=(Pending.targets T ⟨u,p,.fresh⟩).val := by
      rw [← hserved]
      have hcopies : (n.abstract T).copies=0 := by
        change n.pending.map _=0
        rw [hdone,Multiset.map_zero]
      exact delivered_of_no_copies hcopies
    rw [hdelivered]
    exact count_eq_one_of_mem (Finset.nodup _) ((htargets v).mpr ⟨hbit,hreach⟩)
omit [DecidableEq V] in
theorem IsPath.one_le_length {port : V → V → Option Nat} {l : List V} {u v : V}
    (h : IsPath port l u v) : 1≤l.length := by
  cases l with
  | nil => cases h.1
  | cons a l => simp
omit [DecidableEq V] in
theorem IsPath.two_le_length {port : V → V → Option Nat} {l : List V} {u v : V}
    (h : IsPath port l u v) (hne : u≠v) : 2≤l.length := by
  match l, h with
  | [], h => cases h.1
  | [a], h => exact absurd (some.inj (h.1.symm.trans h.2.1)) hne
  | a::b::l, _ => simp

def twoBfrs : Topology Bool where
  nodes := [false,true]
  bfrId b := if b then 2 else 1
  ip b := if b then 2 else 1
  port u w := if u=w then none else some 1
  paths u v := if u=v then some [u] else some [u,v]
  mem_nodes := by decide
  bfrId_range := by decide
  bfrId_injective := by decide
  ip_injective := by decide
  port_range := by
    intro u w p h
    split_ifs at h
    cases h
    decide
  port_injective := by
    intro u w w' p h h'
    cases u <;> cases w <;> cases w' <;> simp_all
  shortest := by
    intro u v l h
    by_cases huv : u=v
    · subst huv
      rw [if_pos rfl] at h
      cases h
      exact ⟨⟨rfl,rfl,List.isChain_singleton u⟩,fun l' hl' => hl'.one_le_length⟩
    · rw [if_neg huv] at h
      cases h
      exact ⟨⟨rfl,rfl,by simp [huv]⟩,fun l' hl' => hl'.two_le_length huv⟩
  complete := by
    intro u v l _
    split_ifs <;> rfl

def packetForBoth : Packet := ⟨typeBier,none,true,3,typeIpv4,some ⟨17,1,2⟩⟩

theorem twoBfrs_both_decapsulate : ∃ n, Relation.ReflTransGen (Step twoBfrs .link) (entering false packetForBoth) n ∧
      n.pending=0 ∧ n.decapsulated.count false=1 ∧ n.decapsulated.count true=1 := by
  obtain ⟨-,⟨n,hrun,hdone⟩,-⟩ := decapsulated_exactly_once twoBfrs .link (u := false)
    (p := packetForBoth) ⟨rfl,rfl⟩ .refl
  obtain ⟨-,-,-,-,hall⟩ := decapsulated_exactly_once twoBfrs .link ⟨rfl,rfl⟩ hrun
  exact ⟨n,hrun,hdone,hall hdone false (by decide) ⟨[false],rfl,rfl,by simp⟩,
    hall hdone true (by decide) ⟨[false,true],rfl,rfl,by simp [twoBfrs]⟩⟩
end P4Benchmarks.Bier
