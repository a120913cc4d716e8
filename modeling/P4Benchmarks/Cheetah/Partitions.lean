import P4Benchmarks.Cheetah.Ingress
import P4Benchmarks.Lib.Cyclic
/-!
# Cheetah: the two partitions of the registers

Each partition has ten cells of each array. The free indices of a partition are a queue in a ring of
ten cells, from the position of its pop index on.
-/
namespace P4Benchmarks.Cheetah
open Lib List Function Nat
def base (second : Bool) : Nat := if second then 10 else 0

theorem base_add_inj {u w : Bool} {j k : Nat} (hj : j<10) (hk : k<10) (h : base u+j=base w+k) : u=w ∧ j=k := by
  cases u <;> cases w <;> simp only [base,if_true,Bool.false_eq_true,if_false] at h <;> first
    | exact ⟨rfl,by omega⟩
    | omega

theorem base_add_lt (u : Bool) {k : Nat} (hk : k<10) : base u+k<20 := by
  cases u <;> simp only [base,if_true,Bool.false_eq_true,if_false] <;> omega
variable {v : BitVec 16}
theorem cell_eq (u : Bool) (hv : v.toNat<10) : (v+offset u).toNat=base u+v.toNat := by
  cases u
  · simp [offset,base]
  · have hoffset : (offset true).toNat=10 := rfl
    rw [BitVec.toNat_add,hoffset,base,if_pos rfl]
    omega

theorem advance_first (hv : v.toNat<10) : (advance false v).toNat=(v.toNat+1)%10 := by
  have hsucc : (v+1).toNat=v.toNat+1 := by
    change (v.toNat+1)%65536=_
    omega
  have hlimit : (10+offset false : BitVec 16).toNat=10 := rfl
  rw [advance]
  split_ifs with hlast
  · have hten : v.toNat+1=10 := by rw [← hsucc,hlast,hlimit]
    rw [hten]
    rfl
  · have hten : v.toNat+1≠10 := by
      rw [← hsucc,← hlimit]
      exact fun h => hlast (BitVec.eq_of_toNat_eq h)
    rw [hsucc,mod_eq_of_lt (by omega)]

theorem advance_second (hv : v.toNat<10) : (advance true v).toNat=v.toNat+1 := by
  have hsucc : (v+1).toNat=v.toNat+1 := by
    change (v.toNat+1)%65536=_
    omega
  have hlimit : (10+offset true : BitVec 16).toNat=20 := rfl
  rw [advance,if_neg,hsucc]
  intro hlast
  rw [hlast,hlimit] at hsucc
  omega
section
variable (junk : Unspecified) (r : Registers) (u : Bool)
def popAt : BitVec 16 := r.popIndex.read junk (offsetUnit u)
def pushAt : BitVec 16 := r.pushIndex.read junk (offsetUnit u)
def ring : List (BitVec 16) := (List.range 10).map fun k => r.freeIndices.read junk (base u+k)
def hashAt (k : Nat) : BitVec 16 := r.indexToHash.read junk (base u+k)
def serverAt (k : Nat) : BitVec 16 := r.indexToServerId.read junk (base u+k)

@[simp] theorem length_ring : (ring junk r u).length=10 := by simp [ring]
theorem read_write_unit (a : Register 2 16) (u w : Bool) (v : BitVec 16) :
    (a.write (offsetUnit u) v).read junk (offsetUnit w) =
      if w=u then v else a.read junk (offsetUnit w) := by
  cases u <;> cases w <;> rfl

theorem read_write_cell (a : Register 20 16) (u w : Bool) {j k : Nat} (hj : j<10) (hk : k<10) (v : BitVec 16) :
    (a.write (base u+j) v).read junk (base w+k) =
      if w=u ∧ k=j then v else a.read junk (base w+k) := by
  rw [Register.read_write (base_add_lt w hk)]
  refine if_congr ⟨fun h => base_add_inj hk hj h,?_⟩ rfl rfl
  rintro ⟨rfl,rfl⟩
  rfl

theorem ring_write {r r' : Registers} {u : Bool} {j : Nat} (hj : j<10)
    (h : r'.freeIndices=r.freeIndices.write (base u+j) v) (w : Bool) :
    ring junk r' w = if w=u then (ring junk r u).set j v else ring junk r w := by
  apply ext_getElem
  · split_ifs <;> simp
  · intro k hk _
    have hk10 : k<10 := by simpa using hk
    split_ifs with hwu
    · subst hwu
      simp [ring,getElem_map,getElem_range,h,read_write_cell junk _ _ _ hj hk10,getElem_set,true_and,eq_comm]
    · simp [ring,getElem_map,getElem_range,h,read_write_cell junk _ _ _ hj hk10,
        hwu,false_and]

theorem nextCookie_eq {r : Registers} {u : Bool} (hpop : (popAt junk r u).toNat<10) :
    nextCookie junk u r=cyclicAt (ring junk r u) (popAt junk r u).toNat 0 := by
  have hlt : (popAt junk r u).toNat<(ring junk r u).length := by rwa [length_ring]
  rw [cyclicAt_zero hlt,getD_eq_getElem?_getD,List.getElem?_eq_getElem hlt,Option.getD_some]
  simp only [ring,getElem_map,getElem_range]
  exact congrArg _ (cell_eq u hpop)
variable {junk} {r : Registers} {u : Bool}
theorem ring_acquire (hpop : (popAt junk r u).toNat<10) (hash serverId : BitVec 16) (w : Bool) :
    ring junk (acquire junk u hash serverId r) w =
      if w=u then (ring junk r u).set (popAt junk r u).toNat 0xffff else ring junk r w := by
  refine ring_write junk hpop ?_ w
  change r.freeIndices.write (popAt junk r u+offset u).toNat 0xffff=_
  rw [cell_eq u hpop]

theorem popAt_acquire (hash serverId : BitVec 16) (w : Bool) : popAt junk (acquire junk u hash serverId r) w =
      if w=u then advance u (popAt junk r u) else popAt junk r w :=
  read_write_unit junk _ u w _

theorem entry_acquire (hcookie : (nextCookie junk u r).toNat<10) (hash serverId : BitVec 16)
    (w : Bool) {k : Nat} (hk : k<10) :
    hashAt junk (acquire junk u hash serverId r) w k =
        (if w=u ∧ k=(nextCookie junk u r).toNat then hash else hashAt junk r w k) ∧
      serverAt junk (acquire junk u hash serverId r) w k =
        if w=u ∧ k=(nextCookie junk u r).toNat then serverId else serverAt junk r w k := by
  rw [hashAt,serverAt,acquire,cell_eq u hcookie]
  exact ⟨read_write_cell junk _ u w hcookie hk _,read_write_cell junk _ u w hcookie hk _⟩

theorem ring_release (hpush : (pushAt junk r u).toNat<10) (cookie : BitVec 16) (w : Bool) :
    ring junk (release junk u cookie r) w =
      if w=u then (ring junk r u).set (pushAt junk r u).toNat cookie else ring junk r w := by
  refine ring_write junk hpush ?_ w
  change r.freeIndices.write (pushAt junk r u+offset u).toNat cookie=_
  rw [cell_eq u hpush]

theorem pushAt_release (cookie : BitVec 16) (w : Bool) : pushAt junk (release junk u cookie r) w =
      if w=u then advance u (pushAt junk r u) else pushAt junk r w :=
  read_write_unit junk _ u w _

theorem entry_release {cookie : BitVec 16} (hcookie : cookie.toNat<10) (w : Bool) {k : Nat} (hk : k<10) :
    hashAt junk (release junk u cookie r) w k = (if w=u ∧ k=cookie.toNat then 0xffff else hashAt junk r w k) ∧
      serverAt junk (release junk u cookie r) w k =
        if w=u ∧ k=cookie.toNat then 0xffff else serverAt junk r w k := by
  rw [hashAt,serverAt,release,cell_eq u hcookie]
  exact ⟨read_write_cell junk _ u w hcookie hk _,read_write_cell junk _ u w hcookie hk _⟩
variable (junk r) in
/-- The queues `q` of free indices of both partitions, where `n` indices of each are in use. The
first partition is a ring. In the second one the released indices are written behind the pop index,
where they are not read again. -/
structure Queues (n : Bool → Nat) (q : Bool → List (BitVec 16)) : Prop where
  reads : ∀ u, CyclicReads (ring junk r u) ((popAt junk r u).toNat%10) (q u)
  first : (popAt junk r false).toNat<10 ∧
    (pushAt junk r false).toNat=((popAt junk r false).toNat+(q false).length)%10 ∧
    (q false).length+n false=10
  second : (popAt junk r true).toNat+(q true).length=10 ∧ (pushAt junk r true).toNat+n true=(popAt junk r true).toNat
  nodup : ∀ u, (q u).Nodup
  small : ∀ u, ∀ v ∈ q u, v.toNat<10
namespace Queues
variable {n : Bool → Nat} {q : Bool → List (BitVec 16)} {v : BitVec 16} {rest : List (BitVec 16)}
theorem length_le (h : Queues junk r n q) (u : Bool) : (q u).length≤10 := by
  cases u
  · have hcount := h.first.2.2
    omega
  · have hcount := h.second.1
    omega

theorem pop_lt (h : Queues junk r n q) (hq : q u=v::rest) : (popAt junk r u).toNat<10 := by
  cases u
  · exact h.first.1
  · have hsum := h.second.1
    rw [hq,length_cons] at hsum
    omega

theorem nextCookie_eq (h : Queues junk r n q) (hq : q u=v::rest) : nextCookie junk u r=v := by
  have hpop := h.pop_lt hq
  have hreads := h.reads u
  rw [hq,mod_eq_of_lt hpop] at hreads
  rw [Cheetah.nextCookie_eq junk hpop]
  exact (cyclicReads_cons.mp hreads).1

private theorem reads_tail {buf : List (BitVec 16)} {o : Nat} {w : BitVec 16}
    (hbuf : buf.length=10) (ho : o<10) (hreads : CyclicReads buf o (v::rest))
    (hlength : (v::rest).length≤10) : CyclicReads (buf.set o w) ((o+1)%10) rest := by
  have htail := (cyclicReads_cons.mp hreads).2
  have hset := htail.set (v := w) (j := 9) (by omega) (le_of_succ_le_succ hlength)
  have hpos : ((o+1)%10+9)%10=o := by omega
  rwa [hbuf,hpos] at hset

private theorem advance_mod (u : Bool) {i : BitVec 16} (hi : i.toNat<10) :
    (advance u i).toNat%10=(i.toNat+1)%10 := by
  cases u
  · rw [advance_first hi,mod_mod]
  · rw [advance_second hi]

theorem acquire (h : Queues junk r n q) (hq : q u=v::rest) (hash serverId : BitVec 16) :
    Queues junk (acquire junk u hash serverId r) (update n u (n u+1)) (update q u rest) := by
  have hpop := h.pop_lt hq
  have hpush (w : Bool) : pushAt junk (Cheetah.acquire junk u hash serverId r) w = pushAt junk r w := rfl
  have hlength := h.length_le u
  have hnodup := h.nodup u
  rw [hq] at hlength hnodup
  refine ⟨?_,?_,?_,?_,?_⟩
  · intro w
    rw [ring_acquire hpop,popAt_acquire]
    by_cases hw : w=u
    · subst hw
      have hreads := h.reads w
      rw [hq,mod_eq_of_lt hpop] at hreads
      rw [if_pos rfl,if_pos rfl,update_self,advance_mod w hpop]
      exact reads_tail (length_ring junk r w) hpop hreads hlength
    · rw [if_neg hw,if_neg hw,update_of_ne hw]
      exact h.reads w
  · obtain ⟨hpopFirst,hpushFirst,hcount⟩ := h.first
    rw [popAt_acquire,hpush,hpushFirst]
    cases u
    · rw [hq,length_cons] at hcount ⊢
      rw [if_pos rfl,update_self,update_self,advance_first hpop]
      exact ⟨mod_lt _ (by decide),by omega,by omega⟩
    · exact ⟨hpopFirst,rfl,hcount⟩
  · obtain ⟨hsum,hcount⟩ := h.second
    rw [popAt_acquire,hpush]
    cases u
    · exact ⟨hsum,hcount⟩
    · rw [hq,length_cons] at hsum
      rw [if_pos rfl,update_self,update_self,advance_second hpop]
      exact ⟨by omega,by omega⟩
  · intro w
    by_cases hw : w=u
    · subst hw
      rw [update_self]
      exact (nodup_cons.mp hnodup).2
    · rw [update_of_ne hw]
      exact h.nodup w
  · intro w y hy
    by_cases hw : w=u
    · subst hw
      rw [update_self] at hy
      exact h.small w y (by rw [hq]; exact mem_cons_of_mem v hy)
    · rw [update_of_ne hw] at hy
      exact h.small w y hy

def released (q : Bool → List (BitVec 16)) (u : Bool) (cookie : BitVec 16) : Bool → List (BitVec 16) :=
  if u then q else update q false (q false++[cookie])

theorem mem_released {w : Bool} {cookie y : BitVec 16} (hy : y ∈ released q u cookie w) :
    y ∈ q w ∨ (y=cookie ∧ w=u) := by
  unfold released at hy
  cases u
  · rw [if_neg Bool.false_ne_true] at hy
    cases w
    · rw [update_self,mem_append,mem_singleton] at hy
      exact hy.imp_right fun h => ⟨h,rfl⟩
    · exact Or.inl hy
  · exact Or.inl hy

theorem push_lt (h : Queues junk r n q) (hn : 0<n u) : (pushAt junk r u).toNat<10 := by
  cases u
  · rw [h.first.2.1]
    exact mod_lt _ (by decide)
  · obtain ⟨hsum,hcount⟩ := h.second
    omega

private theorem reads_behind {buf : List (BitVec 16)} {o p : Nat} {l : List (BitVec 16)}
    (hbuf : buf.length=10) (hreads : CyclicReads buf (o%10) l) (hsum : o+l.length=10)
    (hp : p<o) (cookie : BitVec 16) : CyclicReads (buf.set p cookie) (o%10) l := by
  have hset := hreads.set (v := cookie) (j := l.length+p) (by omega) (by omega)
  have hpos : (o%10+(l.length+p))%10=p := by omega
  rwa [hbuf,hpos] at hset

theorem release (h : Queues junk r n q) (hn : 0<n u) {cookie : BitVec 16} (hcookie : cookie.toNat<10)
    (hnot : cookie ∉ q u) :
    Queues junk (release junk u cookie r) (update n u (n u-1)) (released q u cookie) := by
  have hpush := h.push_lt hn
  have hpop (w : Bool) : popAt junk (Cheetah.release junk u cookie r) w=popAt junk r w := rfl
  refine ⟨?_,?_,?_,?_,?_⟩
  · intro w
    have hreads := h.reads w
    rw [ring_release hpush,hpop]
    by_cases hw : w=u
    · subst hw
      cases w
      · obtain ⟨hpopFirst,hpushFirst,hcount⟩ := h.first
        rw [mod_eq_of_lt hpopFirst] at hreads ⊢
        have hreads' := hreads.push (v := cookie) (by rw [length_ring]; omega)
        rwa [length_ring,← hpushFirst] at hreads'
      · obtain ⟨hsum,hcount⟩ := h.second
        exact reads_behind (length_ring junk r true) hreads hsum (by omega) cookie
    · cases u <;> cases w
      · exact absurd rfl hw
      · exact hreads
      · exact hreads
      · exact absurd rfl hw
  · obtain ⟨hpopFirst,hpushFirst,hcount⟩ := h.first
    rw [pushAt_release,hpop]
    cases u
    · rw [if_pos rfl,advance_first hpush,hpushFirst,update_self]
      change _ ∧ _=(_+(q false++[cookie]).length)%10 ∧ (q false++[cookie]).length+_=_
      rw [length_append,length_singleton]
      exact ⟨hpopFirst,by omega,by omega⟩
    · exact ⟨hpopFirst,hpushFirst,hcount⟩
  · obtain ⟨hsum,hcount⟩ := h.second
    rw [pushAt_release,hpop]
    cases u
    · exact ⟨hsum,hcount⟩
    · rw [if_pos rfl,advance_second hpush,update_self]
      exact ⟨hsum,by omega⟩
  · intro w
    cases u <;> cases w
    · change (q false++[cookie]).Nodup
      rw [nodup_append]
      refine ⟨h.nodup false,by simp,?_⟩
      rintro y hy z hz rfl
      exact hnot (mem_singleton.mp hz ▸ hy)
    · exact h.nodup true
    · exact h.nodup false
    · exact h.nodup true
  · intro w y hy
    rcases mem_released hy with hold | ⟨rfl,-⟩
    · exact h.small w y hold
    · exact hcookie
end Queues
end
end P4Benchmarks.Cheetah
