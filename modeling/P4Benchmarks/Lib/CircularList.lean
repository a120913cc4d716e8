import Mathlib.Data.List.Chain
/-!
# Circular doubly linked lists

Nodes with two links.  A list is a cycle through a head node, which is not an element.  Insertion
and removal change the links of the neighbours only, so every other list stays as it is.
-/
namespace P4Benchmarks.Lib
open List Function
variable {ν : Type*} [DecidableEq ν]
structure Links (ν : Type*) where
  (next prev : ν → ν)
namespace Links
variable (L : Links ν)
def init (h : ν) : Links ν := ⟨update L.next h h,update L.prev h h⟩

def insert (b e : ν) : Links ν :=
  let L := { L with prev := update L.prev e (L.prev b) }
  let L := { L with next := update L.next e b }
  let L := { L with next := update L.next (L.prev b) e }
  { L with prev := update L.prev b e }

def remove (e : ν) : Links ν :=
  let L := { L with next := update L.next (L.prev e) (L.next e) }
  { L with prev := update L.prev (L.next e) (L.prev e) }

def find (L : Links ν) (h : ν) (p : ν → Bool) : Nat → ν → Option (Option ν)
  | 0, x => if x=h then some none else none
  | fuel+1, x =>
    if x=h then some none
    else if p x then some (some x)
    else L.find h p fuel (L.next x)

def collect (L : Links ν) (h : ν) : Nat → ν → Option (List ν)
  | 0, x => if x=h then some [] else none
  | fuel+1, x => if x=h then some [] else (L.collect h fuel (L.next x)).map (x :: ·)

def Linked (a b : ν) : Prop := L.next a=b ∧ L.prev b=a
def Ring (h : ν) (l : List ν) : Prop := (h::(l++[h])).IsChain L.Linked

section Cycle
omit [DecidableEq ν]
variable {L : Links ν} {h : ν} {l : List ν}
theorem Ring.getLast (hring : L.Ring h l) : (h::l).getLast (cons_ne_nil h l)=L.prev h := by
  rw [Ring,← cons_append] at hring
  exact (hring.rel_getLast_head_of_append (cons_ne_nil h l) (cons_ne_nil h [])).2.symm

theorem Ring.linked_prev (hring : L.Ring h l) : L.Linked (L.prev h) h := by
  rw [← hring.getLast]
  rw [Ring,← cons_append] at hring
  exact hring.rel_getLast_head_of_append (cons_ne_nil h l) (cons_ne_nil h [])

theorem Ring.split {e : ν} {s t : List ν} (hring : L.Ring h (s++e::t)) :
    (h::s).IsChain L.Linked ∧ (t++[h]).IsChain L.Linked ∧
      (∀ x ∈ (h::s).getLast?, L.Linked x e) ∧ ∀ y ∈ (t++[h]).head?, L.Linked e y := by
  have hsplit : h::(s++e::t++[h])=(h::s)++(e::(t++[h])) := by simp
  rw [Ring,hsplit,isChain_append] at hring
  obtain ⟨hs,ht,hprev⟩ := hring
  obtain ⟨hnext,ht⟩ := isChain_cons.mp ht
  exact ⟨hs,ht,fun x hx => hprev x hx e rfl,hnext⟩

theorem Ring.linked_of_mem {e : ν} (hring : L.Ring h l) (he : e ∈ l) :
    L.Linked (L.prev e) e ∧ L.Linked e (L.next e) := by
  obtain ⟨s,t,rfl⟩ := append_of_mem he
  obtain ⟨-,-,hprev,hnext⟩ := hring.split
  have hleft := hprev _ (getLast_mem_getLast? (cons_ne_nil h s))
  have hright := hnext _ (head_mem_head? (by simp))
  constructor
  · rwa [hleft.2]
  · rwa [hright.1]
end Cycle
variable {L : Links ν} {h b e x y : ν} {l : List ν}
theorem ring_init : (L.init h).Ring h [] := by simp [Ring,Linked,init]

theorem Ring.init_of_notMem (hring : L.Ring x l) (hx : h≠x) (hl : h ∉ l) : (L.init h).Ring x l := by
  refine hring.imp_of_mem_imp fun a b ha hb hab => ?_
  have ha : a≠h := by
    rintro rfl
    simp [hx,hl] at ha
  have hb : b≠h := by
    rintro rfl
    simp [hx,hl] at hb
  simpa [Linked,init,ha,hb] using hab

theorem Linked.insert (hxy : L.Linked x y) (hpb : L.Linked (L.prev b) b) (hy : y≠b)
    (hxe : x≠e) (hye : y≠e) (hbe : b≠e) : (L.insert b e).Linked x y := by
  have hxp : x≠L.prev b := by
    rintro rfl
    exact hy (hxy.1.symm.trans hpb.1)
  constructor
  · simp [Links.insert,hbe,hxp,hxe,hxy.1]
  · simp [Links.insert,hy,hye,hxy.2]

theorem linked_insert_left (hbe : b≠e) : (L.insert b e).Linked (L.prev b) e := by
  constructor
  · simp [insert,hbe]
  · simp [insert,Ne.symm hbe]

theorem linked_insert_right (hbe : b≠e) (hpe : L.prev b≠e) : (L.insert b e).Linked e b := by
  constructor
  · simp [insert,hbe,Ne.symm hpe]
  · simp [insert]

theorem Ring.insert (hring : L.Ring h l) (hl : h ∉ l) (he : e≠h) (hel : e ∉ l) : (L.insert h e).Ring h (l++[e]) := by
  have hpe : L.prev h≠e := by
    rw [← hring.getLast]
    intro heq
    have hmem := getLast_mem (cons_ne_nil h l)
    rw [heq] at hmem
    simp [he,hel] at hmem
  have hopen : (h::l).IsChain (L.insert h e).Linked := by
    have hclosed := hring
    rw [Ring,← cons_append] at hclosed
    refine hclosed.left_of_append.imp_of_mem_tail_imp fun a b ha hb hab => ?_
    apply hab.insert hring.linked_prev
    · exact fun heq => hl (heq ▸ hb)
    · rintro rfl
      simp [he,hel] at ha
    · exact fun heq => hel (heq ▸ hb)
    · exact Ne.symm he
  have hsplit : h::((l++[e])++[h])=(h::l)++[e,h] := by simp
  rw [Ring,hsplit]
  apply hopen.append (isChain_pair.mpr (linked_insert_right (Ne.symm he) hpe))
  intro x hx y hy
  rw [List.getLast?_eq_some_getLast (cons_ne_nil h l),hring.getLast] at hx
  cases hx
  cases hy
  exact linked_insert_left (Ne.symm he)

theorem Ring.insert_of_notMem {k : List ν} (hring : L.Ring x l) (hhead : L.Ring h k) (hx : h≠x)
    (hl : h ∉ l) (hxe : e≠x) (hle : e ∉ l) (hhe : h≠e) : (L.insert h e).Ring x l := by
  refine hring.imp_of_mem_imp fun a b ha hb hab => ?_
  apply hab.insert hhead.linked_prev
  · rintro rfl
    simp [hx,hl] at hb
  · rintro rfl
    simp [hxe,hle] at ha
  · rintro rfl
    simp [hxe,hle] at hb
  · exact hhe

@[simp]
theorem remove_next : (L.remove e).next=update L.next (L.prev e) (L.next e) := rfl

@[simp]
theorem remove_prev : (L.remove e).prev=update L.prev (L.next e) (L.prev e) := by simp [remove,Function.update_apply]

theorem Linked.remove (hxy : L.Linked x y) (hleft : L.Linked (L.prev e) e)
    (hright : L.Linked e (L.next e)) (hx : x≠e) (hy : y≠e) : (L.remove e).Linked x y := by
  have hxp : x≠L.prev e := by
    rintro rfl
    exact hy (hxy.1.symm.trans hleft.1)
  have hyn : y≠L.next e := by
    rintro rfl
    exact hx (hxy.2.symm.trans hright.2)
  constructor
  · simp [hxp,hxy.1]
  · simp [hyn,hxy.2]

theorem linked_remove (hx : L.Linked x e) (hy : L.Linked e y) : (L.remove e).Linked x y := by
  constructor
  · simp [hx.2,hy.1]
  · simp [hx.2,hy.1]

theorem Ring.remove_of_notMem {k : List ν} (hring : L.Ring x l) (hhome : L.Ring h k) (he : e ∈ k)
    (hx : e≠x) (hl : e ∉ l) : (L.remove e).Ring x l := by
  obtain ⟨hleft,hright⟩ := hhome.linked_of_mem he
  refine hring.imp_of_mem_imp fun a b ha hb hab => hab.remove hleft hright ?_ ?_
  · rintro rfl
    simp [hx,hl] at ha
  · rintro rfl
    simp [hx,hl] at hb

theorem Ring.remove (hring : L.Ring h l) (he : e ∈ l) (hl : h ∉ l) (hnodup : l.Nodup) :
    (L.remove e).Ring h (l.filter (· ≠ e)) := by
  obtain ⟨hleft,hright⟩ := hring.linked_of_mem he
  have hhe : e≠h := fun heq => hl (heq ▸ he)
  obtain ⟨s,t,rfl⟩ := append_of_mem he
  obtain ⟨hs,ht,hprev,hnext⟩ := hring.split
  obtain ⟨het,hes⟩ : e ∉ t ∧ e ∉ s := by
    obtain ⟨-,ht,hdisjoint⟩ := nodup_append.mp hnodup
    exact ⟨(nodup_cons.mp ht).1,fun hs => hdisjoint e hs e mem_cons_self rfl⟩
  have hfilter : (s++e::t).filter (· ≠ e)=s++t := by
    have hs : s.filter (· ≠ e)=s := filter_eq_self.mpr fun a ha => by grind
    have ht : t.filter (· ≠ e)=t := filter_eq_self.mpr fun a ha => by grind
    rw [filter_append,filter_cons_of_neg (by simp),hs,ht]
  have happend : h::(s++t++[h])=(h::s)++(t++[h]) := by simp
  rw [hfilter,Ring,happend]
  apply List.IsChain.append
  · refine hs.imp_of_mem_imp fun a b ha hb hab => hab.remove hleft hright ?_ ?_
    · rintro rfl
      simp [hhe,hes] at ha
    · rintro rfl
      simp [hhe,hes] at hb
  · refine ht.imp_of_mem_imp fun a b ha hb hab => hab.remove hleft hright ?_ ?_
    · rintro rfl
      simp [hhe,het] at ha
    · rintro rfl
      simp [hhe,het] at hb
  · exact fun x hx y hy => linked_remove (hprev x hx) (hnext y hy)

theorem walks_of_chain (p : ν → Bool) {fuel : Nat} (hchain : (x::(l++[h])).IsChain L.Linked) (hl : h ∉ l)
    (hfuel : l.length≤fuel) : L.find h p fuel (L.next x)=some (l.find? p) ∧ L.collect h fuel (L.next x)=some l := by
  induction l generalizing x fuel with
  | nil =>
    have hnext : L.next x=h := (isChain_pair.mp hchain).1
    cases fuel <;> simp [find,collect,hnext]
  | cons y l ih =>
    obtain ⟨hxy,hchain⟩ := isChain_cons_cons.mp hchain
    obtain ⟨hyh,hl⟩ := not_or.mp (mt mem_cons.mpr hl)
    obtain ⟨fuel,rfl⟩ : ∃ n, fuel=n+1 := ⟨fuel-1,by simp at hfuel; omega⟩
    have hrest := ih hchain hl (Nat.le_of_succ_le_succ hfuel)
    rw [find,collect,hxy.1,if_neg (Ne.symm hyh)]
    cases hp : p y <;> simp [hp,hrest,Ne.symm hyh]

theorem Ring.find (hring : L.Ring h l) (hl : h ∉ l) (p : ν → Bool) {fuel : Nat}
    (hfuel : l.length≤fuel) : L.find h p fuel (L.next h)=some (l.find? p) :=
  (walks_of_chain p hring hl hfuel).1

theorem Ring.collect (hring : L.Ring h l) (hl : h ∉ l) {fuel : Nat} (hfuel : l.length≤fuel) :
    L.collect h fuel (L.next h)=some l :=
  (walks_of_chain (fun _ => true) hring hl hfuel).2
end Links
end P4Benchmarks.Lib
