import P4Benchmarks.Bier.Controller
/-! # BIER: what the entries say -/
namespace P4Benchmarks.Bier
open Lib List
open Option hiding or_assoc
variable {V : Type} [DecidableEq V]
namespace Topology
variable {T : Topology V} {u v w : V}
theorem getNextHop_eq_some : T.getNextHop u v=some w ↔ ∃ t, T.paths u v=some (u::w::t) := by
  unfold getNextHop
  constructor
  · intro h
    cases hpaths : T.paths u v with
    | none =>
      rw [hpaths] at h
      cases h
    | some l =>
      rw [hpaths] at h
      match l, h with
      | a::b::t, h =>
        have hhead := (T.shortest u v _ hpaths).1.1
        rw [List.head?_cons,some.injEq] at hhead
        obtain rfl : b=w := some.inj h
        exact ⟨t,by rw [hhead]⟩
  · rintro ⟨t,hpaths⟩
    rw [hpaths]

theorem isPath_behind (h : T.getNextHop u v=some w) :
    ∃ t, T.paths u v=some (u::w::t) ∧ (T.port u w).isSome ∧ IsPath T.port (w::t) w v := by
  obtain ⟨t,hpaths⟩ := getNextHop_eq_some.mp h
  obtain ⟨-,hlast,hchain⟩ := (T.shortest u v _ hpaths).1
  rw [isChain_cons_cons] at hchain
  exact ⟨t,hpaths,hchain.1,rfl,hlast,hchain.2⟩

theorem paths_isSome_behind (h : T.getNextHop u v=some w) : (T.paths w v).isSome := by
  obtain ⟨t,-,-,hpath⟩ := isPath_behind h
  exact T.complete w v _ hpath

theorem paths_isSome_of_getNextHop (h : T.getNextHop u v=some w) : (T.paths u v).isSome := by
  obtain ⟨t,hpaths⟩ := getNextHop_eq_some.mp h
  rw [hpaths]
  rfl

theorem isPath_self (T : Topology V) (u : V) : IsPath T.port [u] u u := ⟨rfl,rfl,isChain_singleton u⟩

theorem paths_self (T : Topology V) (u : V) : T.paths u u=some [u] := by
  obtain ⟨l,hl⟩ := isSome_iff_exists.mp (T.complete u u _ (isPath_self T u))
  obtain ⟨⟨hhead,-⟩,hshort⟩ := T.shortest u u l hl
  have hlength := hshort [u] (isPath_self T u)
  match l, hhead, hlength with
  | [a], hhead, _ => rw [hl,some.inj hhead]

theorem getNextHop_self (T : Topology V) (u : V) : T.getNextHop u u=none := by rw [getNextHop,paths_self]

theorem exists_getNextHop (h : (T.paths u v).isSome) (hne : v≠u) : ∃ w, T.getNextHop u v=some w := by
  obtain ⟨l,hl⟩ := isSome_iff_exists.mp h
  obtain ⟨hhead,hlast,-⟩ := (T.shortest u v l hl).1
  match l, hhead, hlast with
  | [a], hhead, hlast =>
    rw [List.head?_cons,some.injEq] at hhead
    rw [List.getLast?_singleton,some.injEq] at hlast
    exact absurd (hlast.symm.trans hhead) hne
  | a::b::t, _, _ => exact ⟨b,by rw [getNextHop,hl]⟩

def routing (T : Topology V) : Routing V where
  next := T.getNextHop
  dist u v := ((T.paths u v).map List.length).getD 0
  closer := by
    intro u v w h
    obtain ⟨t,hpaths,-,hpath⟩ := isPath_behind h
    obtain ⟨l,hl⟩ := isSome_iff_exists.mp (paths_isSome_behind h)
    have hle := (T.shortest w v l hl).2 _ hpath
    rw [hpaths,hl]
    exact Nat.lt_succ_of_le hle

def Has (T : Topology V) (bits : BitVec 64) (v : V) : Prop := bits.getLsbD (T.bfrId v-1)

instance (T : Topology V) (bits : BitVec 64) (v : V) : Decidable (T.Has bits v) :=
  inferInstanceAs (Decidable (_=_))

theorem has_and {a b : BitVec 64} : T.Has (a&&&b) v ↔ T.Has a v ∧ T.Has b v := by simp [Has]

theorem has_and_not {a b : BitVec 64} : T.Has (a&&&~~~b) v ↔ T.Has a v ∧ ¬T.Has b v := by
  have hrange := T.bfrId_range v
  have hlt : T.bfrId v-1<64 := by omega
  simp [Has,hlt]

theorem has_idToBitstring : T.Has (idToBitstring 64 (T.bfrId w)) v ↔ v=w := by
  have hv := T.bfrId_range v
  have hw := T.bfrId_range w
  rw [Has,idToBitstring,BitVec.getLsbD_twoPow,Bool.and_eq_true,decide_eq_true_eq,decide_eq_true_eq]
  constructor
  · rintro ⟨-,hbit⟩
    exact T.bfrId_injective (by omega)
  · rintro rfl
    exact ⟨by omega,rfl⟩

theorem and_idToBitstring_eq_iff {bits : BitVec 64} :
    bits&&&idToBitstring 64 (T.bfrId v)=idToBitstring 64 (T.bfrId v) ↔ T.Has bits v := by
  constructor
  · intro h
    have hbit : T.Has (idToBitstring 64 (T.bfrId v)) v := has_idToBitstring.mpr rfl
    rw [← h] at hbit
    exact (has_and.mp hbit).1
  · intro h
    apply BitVec.eq_of_getLsbD_eq
    intro i hi
    rw [BitVec.getLsbD_and,idToBitstring,BitVec.getLsbD_twoPow]
    by_cases hbit : T.bfrId v-1=i
    · subst hbit
      rw [h,Bool.true_and]
    · simp [hbit]

theorem mem_buildBirt {row : BirtRow} : row ∈ T.buildBirt u ↔
      ∃ v w, T.getNextHop u v=some w ∧ row=⟨T.bfrId v,T.ip v,T.ip w⟩ := by
  rw [buildBirt,mem_filterMap]
  constructor
  · rintro ⟨v,-,h⟩
    split_ifs at h with hv
    obtain ⟨w,hw,rfl⟩ := map_eq_some_iff.mp h
    exact ⟨v,w,hw,rfl⟩
  · rintro ⟨v,w,hw,rfl⟩
    have hne : v≠u := by
      rintro rfl
      rw [getNextHop_self] at hw
      cases hw
    exact ⟨v,T.mem_nodes v,by rw [if_pos hne,hw,map_some]⟩
end Topology

theorem getLsbD_getFbm {birt : List BirtRow} {nextHop : BitVec 32} {i : Nat} : (getFbm birt nextHop).getLsbD i ↔
      ∃ row ∈ birt, row.nbr=nextHop ∧ (idToBitstring 64 row.bfrId).getLsbD i := by
  have hfold (acc : BitVec 64) : (birt.foldl (fun fbm row =>
      if row.nbr=nextHop then fbm|||idToBitstring 64 row.bfrId else fbm) acc).getLsbD i ↔
      acc.getLsbD i ∨ ∃ row ∈ birt, row.nbr=nextHop ∧ (idToBitstring 64 row.bfrId).getLsbD i := by
    induction birt generalizing acc with
    | nil => simp
    | cons row birt ih =>
      rw [foldl_cons,ih]
      split_ifs with hrow
      · simp [hrow,or_assoc]
      · simp [hrow]
  rw [getFbm,hfold]
  simp
namespace Topology
variable {T : Topology V} {u v w : V}
theorem has_getFbm : T.Has (getFbm (T.buildBirt u) (T.ip w)) v ↔ T.getNextHop u v=some w := by
  rw [Has,getLsbD_getFbm]
  constructor
  · rintro ⟨row,hrow,hnbr,hbit⟩
    obtain ⟨v',w',hnext,rfl⟩ := mem_buildBirt.mp hrow
    rw [has_idToBitstring.mp hbit,← T.ip_injective hnbr]
    exact hnext
  · intro h
    exact ⟨_,mem_buildBirt.mpr ⟨v,w,h,rfl⟩,rfl,has_idToBitstring.mpr rfl⟩
omit [DecidableEq V] in
theorem exists_mapM {α β : Type} {f : α → Option β} {l : List α} (h : ∀ a ∈ l, ∃ b, f a=some b) :
    ∃ l', l.mapM f=some l' ∧ ∀ b, b ∈ l' ↔ ∃ a ∈ l, f a=some b := by
  induction l with
  | nil => exact ⟨[],rfl,by simp⟩
  | cons a l ih =>
    obtain ⟨b,hb⟩ := h a mem_cons_self
    obtain ⟨l',hl',hmem⟩ := ih fun a' ha' => h a' (mem_cons_of_mem a ha')
    refine ⟨b::l',by simp [mapM_cons,hb,hl'],?_⟩
    intro c
    rw [mem_cons,hmem]
    constructor
    · rintro (rfl | ⟨a',ha',hc⟩)
      · exact ⟨a,mem_cons_self,hb⟩
      · exact ⟨a',mem_cons_of_mem a ha',hc⟩
    · rintro ⟨a',ha',hc⟩
      rcases mem_cons.mp ha' with rfl | ha'
      · exact Or.inl (some.inj (hc.symm.trans hb))
      · exact Or.inr ⟨a',ha',hc⟩
section
variable (T : Topology V)
theorem getDeviceById_bfrId (v : V) : T.getDeviceById (T.bfrId v)=some v := by
  have hsome : (T.getDeviceById (T.bfrId v)).isSome := by
    rw [getDeviceById,List.find?_isSome]
    exact ⟨v,T.mem_nodes v,by simp⟩
  obtain ⟨w,hw⟩ := isSome_iff_exists.mp hsome
  have hid := List.find?_some hw
  rw [hw,T.bfrId_injective (of_decide_eq_true hid)]

def biftRow (u v w : V) : BiftRow V := ⟨T.bfrId v,getFbm (T.buildBirt u) (T.ip w),w⟩

theorem buildBift_spec (u : V) : ∃ rows, T.buildBift u=some rows ∧
      ∀ row, row ∈ rows ↔ ∃ v w, T.getNextHop u v=some w ∧ row=T.biftRow u v w := by
  have hrow (v w : V) (hw : T.getNextHop u v=some w) : (do
        let destination ← T.getDeviceById (T.bfrId v)
        let nextHop ← T.getNextHop u destination
        some ⟨T.bfrId v,getFbm (T.buildBirt u) (T.ip w),nextHop⟩)=some (T.biftRow u v w) := by
    rw [getDeviceById_bfrId,bind_eq_bind,bind_some,hw]
    rfl
  obtain ⟨rows,hrows,hmem⟩ := exists_mapM (l := T.buildBirt u) (f := fun row => do
      let destination ← T.getDeviceById row.bfrId
      let nextHop ← T.getNextHop u destination
      some (⟨row.bfrId,getFbm (T.buildBirt u) row.nbr,nextHop⟩ : BiftRow V)) (by
    intro row hmem
    obtain ⟨v,w,hw,rfl⟩ := mem_buildBirt.mp hmem
    exact ⟨_,hrow v w hw⟩)
  refine ⟨rows,hrows,?_⟩
  intro row
  rw [hmem]
  constructor
  · rintro ⟨birtRow,hbirt,hsome⟩
    obtain ⟨v,w,hw,rfl⟩ := mem_buildBirt.mp hbirt
    exact ⟨v,w,hw,some.inj (hsome.symm.trans (hrow v w hw))⟩
  · rintro ⟨v,w,hw,rfl⟩
    exact ⟨_,mem_buildBirt.mpr ⟨v,w,hw,rfl⟩,hrow v w hw⟩

@[local simp] def forwardEntry (u v w : V) (outPort : Nat) : Entry :=
  let bit := idToBitstring 64 (T.bfrId v)
  ⟨(bit,bit),(idToBitstring 8 outPort,idToBitstring 8 outPort),
    .forward (getFbm (T.buildBirt u) (T.ip w)) (.ofNat 9 outPort)⟩
variable (protection : Protection)
theorem rowEntries_spec (h : T.getNextHop u v=some w) :
    ∃ outPort frr, T.port u w=some outPort ∧ T.rowEntries protection u (T.biftRow u v w) =
        some (T.forwardEntry u v w outPort::frr) ∧
      ∀ e ∈ frr, e.status=(0,idToBitstring 8 outPort) := by
  obtain ⟨t,-,hport,-⟩ := isPath_behind h
  obtain ⟨outPort,hport⟩ := isSome_iff_exists.mp hport
  refine ⟨outPort,?_⟩
  cases protection with
  | none => exact ⟨[],hport,by simp [rowEntries,biftRow,hport],by simp⟩
  | link =>
    refine ⟨[T.frrLinkProtection u outPort (T.biftRow u v w)],hport,?_,?_⟩
    · simp [rowEntries,biftRow,hport]
    · simp [frrLinkProtection]
  | node =>
    obtain ⟨rows,hrows,-⟩ := buildBift_spec T w
    have hfrr : ∃ frr, T.frrNodeProtection u outPort (T.biftRow u v w)=some frr ∧
        ∀ e ∈ frr, e.status=(0,idToBitstring 8 outPort) := by
      refine ⟨_,by rw [frrNodeProtection,biftRow,hrows]; rfl,?_⟩
      intro e he
      obtain ⟨row,-,rfl⟩ := map_eq_some_iff.mp he
      rfl
    obtain ⟨frr,heq,hstatus⟩ := hfrr
    refine ⟨frr.toList,hport,?_,fun e he => hstatus e (mem_toList.mp he)⟩
    rw [biftRow] at heq
    simp [rowEntries,biftRow,hport,heq]

theorem updateBierForwardingEntries_spec (u : V) :
    ∃ entries, T.updateBierForwardingEntries protection u=some entries ∧ ∀ e, e ∈ entries ↔ e=T.decapEntry u ∨ ∃ v w es,
    T.getNextHop u v=some w ∧ T.rowEntries protection u (T.biftRow u v w)=some es ∧ e ∈ es := by
  obtain ⟨rows,hrows,hmem⟩ := buildBift_spec T u
  obtain ⟨lists,hlists,hentries⟩ := exists_mapM (l := rows) (f := T.rowEntries protection u) (by
    intro row hrow
    obtain ⟨v,w,hw,rfl⟩ := (hmem row).mp hrow
    obtain ⟨outPort,frr,-,heq,-⟩ := rowEntries_spec T protection hw
    exact ⟨_,heq⟩)
  refine ⟨lists.flatten++[T.decapEntry u],?_,?_⟩
  · simp [updateBierForwardingEntries,hrows,hlists]
  · intro e
    rw [mem_append,mem_singleton,mem_flatten,or_comm]
    refine or_congr_right ?_
    constructor
    · rintro ⟨es,hes,he⟩
      obtain ⟨row,hrow,heq⟩ := (hentries es).mp hes
      obtain ⟨v,w,hw,rfl⟩ := (hmem row).mp hrow
      exact ⟨v,w,es,hw,heq,he⟩
    · rintro ⟨v,w,es,hw,heq,he⟩
      exact ⟨es,(hentries es).mpr ⟨_,(hmem _).mpr ⟨v,w,hw,rfl⟩,heq⟩,he⟩
end

def allUp : BitVec 8 := BitVec.allOnes 8

def bift (T : Topology V) (protection : Protection) (u : V) : List Entry :=
  (T.updateBierForwardingEntries protection u).getD []

theorem mem_bift (T : Topology V) (protection : Protection) (u : V) (e : Entry) :
    e ∈ T.bift protection u ↔ e=T.decapEntry u ∨ ∃ v w es, T.getNextHop u v=some w ∧
      T.rowEntries protection u (T.biftRow u v w)=some es ∧ e ∈ es := by
  obtain ⟨entries,heq,hmem⟩ := updateBierForwardingEntries_spec T protection u
  rw [bift,heq]
  exact hmem e
variable {bits : BitVec 64}
theorem forwardEntry_matches_iff {outPort : Nat} :
    (T.forwardEntry u v w outPort).Matches bits allUp ↔ T.Has bits v := by
  simp only [Entry.Matches,forwardEntry,allUp,BitVec.allOnes_and,and_true]
  exact and_idToBitstring_eq_iff

theorem decapEntry_matches_iff : (T.decapEntry u).Matches bits allUp ↔ T.Has bits u := by
  have hzero : allUp&&&0=0 := by decide
  simp only [Entry.Matches,decapEntry,hzero,and_true]
  exact and_idToBitstring_eq_iff

theorem not_matches_of_status {e : Entry} {outPort : Nat} (hport : T.port u w=some outPort)
    (he : e.status=(0,idToBitstring 8 outPort)) : ¬e.Matches bits allUp := by
  rintro ⟨-,hstatus⟩
  obtain ⟨hpos,hle⟩ := T.port_range u w outPort hport
  rw [he,allUp,BitVec.allOnes_and] at hstatus
  have hbit := congrArg (BitVec.getLsbD · (outPort-1)) hstatus
  simp [idToBitstring,BitVec.getLsbD_twoPow] at hbit
  omega

theorem matches_bift_iff (T : Topology V) (protection : Protection) (u : V) (bits : BitVec 64) (e : Entry) :
    (e ∈ T.bift protection u ∧ e.Matches bits allUp) ↔ (e=T.decapEntry u ∧ T.Has bits u) ∨ ∃ v w outPort,
    T.getNextHop u v=some w ∧ T.port u w=some outPort ∧ e=T.forwardEntry u v w outPort ∧ T.Has bits v := by
  rw [mem_bift]
  constructor
  · rintro ⟨rfl | ⟨v,w,es,hw,hes,he⟩,hmatches⟩
    · exact Or.inl ⟨rfl,decapEntry_matches_iff.mp hmatches⟩
    · right
      obtain ⟨outPort,frr,hport,hrow,hfrr⟩ := rowEntries_spec T protection hw
      cases hes.symm.trans hrow
      rcases mem_cons.mp he with rfl | he
      · exact ⟨v,w,outPort,hw,hport,rfl,forwardEntry_matches_iff.mp hmatches⟩
      · exact absurd hmatches (not_matches_of_status hport (hfrr e he))
  · rintro (⟨rfl,hbit⟩ | ⟨v,w,outPort,hw,hport,rfl,hbit⟩)
    · exact ⟨Or.inl rfl,decapEntry_matches_iff.mpr hbit⟩
    · obtain ⟨outPort',frr,hport',hrow,-⟩ := rowEntries_spec T protection hw
      cases hport.symm.trans hport'
      exact ⟨Or.inr ⟨v,w,_,hw,hrow,mem_cons_self⟩,forwardEntry_matches_iff.mpr hbit⟩
end Topology
end P4Benchmarks.Bier
