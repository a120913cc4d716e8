import Mathlib.Data.List.ReduceOption
import Mathlib.Data.Nat.ModEq
/-! # Lists used as rings -/
namespace P4Benchmarks.Lib
open List Nat
variable {α : Type} [Inhabited α] {buf l l' : List α} {o i j : Nat} {v : α}
section
variable (buf : List α)
def cyclicAt (o j : Nat) : α := buf.getD ((o+j)%buf.length) default
def cyclicSegment (o n : Nat) : List α := (List.range n).map (cyclicAt buf o)
def CyclicReads (o : Nat) (l : List α) : Prop := cyclicSegment buf o l.length=l

@[simp] theorem length_cyclicSegment (o n : Nat) : (cyclicSegment buf o n).length=n := by
  rw [cyclicSegment,length_map,length_range]
end

theorem add_mod_inj {m : Nat} (hi : i < m) (hj : j < m) (h : (o+i)%m=(o+j)%m) : i=j := by
  have hmod : i ≡ j [MOD m] := Nat.ModEq.add_left_cancel' o h
  exact hmod.eq_of_lt_of_lt hi hj

theorem add_mod_cases {m : Nat} (hi : i < m) (hj : j < m) :
    (i+j < m ∧ (i+j)%m=i+j) ∨ (m ≤ i+j ∧ (i+j)%m=i+j-m) := by
  rcases Nat.lt_or_ge (i+j) m with h | h
  · exact .inl ⟨h,mod_eq_of_lt h⟩
  · refine .inr ⟨h,?_⟩
    rw [mod_eq_sub_mod h,mod_eq_of_lt (by omega)]

theorem cyclicAt_add (buf : List α) (o i j : Nat) : cyclicAt buf ((o+i)%buf.length) j=cyclicAt buf o (i+j) := by
  rw [cyclicAt,cyclicAt,mod_add_mod,Nat.add_assoc]

theorem cyclicAt_zero (ho : o<buf.length) : cyclicAt buf o 0=buf.getD o default := by
  rw [cyclicAt,Nat.add_zero,mod_eq_of_lt ho]

theorem cyclicAt_add_length (buf : List α) (o j : Nat) : cyclicAt buf o (buf.length+j)=cyclicAt buf o j := by
  rw [cyclicAt,cyclicAt,Nat.add_left_comm,add_mod_left]

theorem cyclicAt_back (hi : i≤buf.length) (hij : i≤j) :
    cyclicAt buf ((o+(buf.length-i))%buf.length) j=cyclicAt buf o (j-i) := by
  have hsum : buf.length-i+j=buf.length+(j-i) := by omega
  rw [cyclicAt_add,hsum,cyclicAt_add_length]

theorem cyclicAt_set_self (hj : j<buf.length) : cyclicAt (buf.set ((o+j)%buf.length) v) o j=v := by
  have hlt : (o+j)%buf.length<buf.length := mod_lt _ (by omega)
  rw [cyclicAt,length_set,getD_eq_getElem?_getD,List.getElem?_set_self hlt,Option.getD_some]

theorem cyclicAt_set_ne (hi : i<buf.length) (hj : j<buf.length) (hne : j≠i) :
    cyclicAt (buf.set ((o+j)%buf.length) v) o i=cyclicAt buf o i := by
  have hpos : (o+j)%buf.length≠(o+i)%buf.length := fun h => hne (add_mod_inj hj hi h)
  rw [cyclicAt,cyclicAt,length_set,getD_eq_getElem?_getD,getD_eq_getElem?_getD,List.getElem?_set_ne hpos]

theorem cyclicAt_set_advance (ho : o<buf.length) (hj : j<buf.length) : cyclicAt (buf.set o v) ((o+1)%buf.length) j =
      if j+1=buf.length then v else cyclicAt buf o (j+1) := by
  have horigin : (o+0)%buf.length=o := mod_eq_of_lt ho
  have hshift := cyclicAt_add (buf.set o v) o 1 j
  rw [length_set,Nat.add_comm 1 j] at hshift
  rw [hshift]
  split_ifs with hlast
  · have hround := cyclicAt_add_length (buf.set o v) o 0
    rw [length_set,Nat.add_zero] at hround
    have hself : cyclicAt (buf.set ((o+0)%buf.length) v) o 0=v := cyclicAt_set_self (zero_lt_of_lt ho)
    rw [horigin] at hself
    rw [hlast,hround,hself]
  · have hne : cyclicAt (buf.set ((o+0)%buf.length) v) o (j+1)=cyclicAt buf o (j+1) :=
      cyclicAt_set_ne (by omega) (zero_lt_of_lt ho) (succ_ne_zero j).symm
    rwa [horigin] at hne

theorem cyclicSegment_add (buf : List α) (o m n : Nat) : cyclicSegment buf o (m+n) =
      cyclicSegment buf o m++cyclicSegment buf ((o+m)%buf.length) n := by
  rw [cyclicSegment,range_add,map_append,map_map]
  congr 1
  apply map_congr_left
  intro j _
  exact (cyclicAt_add buf o m j).symm

theorem cyclicReads_append : CyclicReads buf o (l++l') ↔
      CyclicReads buf o l ∧ CyclicReads buf ((o+l.length)%buf.length) l' := by
  rw [CyclicReads,length_append,cyclicSegment_add]
  constructor
  · intro h
    exact append_inj h (length_cyclicSegment ..)
  · rintro ⟨h,h'⟩
    rw [h,h']

theorem cyclicReads_singleton : CyclicReads buf o [v] ↔ cyclicAt buf o 0=v := by simp [CyclicReads,cyclicSegment]

theorem cyclicReads_cons : CyclicReads buf o (v::l) ↔ cyclicAt buf o 0=v ∧ CyclicReads buf ((o+1)%buf.length) l := by
  rw [← singleton_append,cyclicReads_append,cyclicReads_singleton,length_singleton]

theorem CyclicReads.set (h : CyclicReads buf o l) (hj : j<buf.length) (hl : l.length≤j) :
    CyclicReads (buf.set ((o+j)%buf.length) v) o l := by
  have hcongr : cyclicSegment (buf.set ((o+j)%buf.length) v) o l.length = cyclicSegment buf o l.length := by
    apply map_congr_left
    intro i hi
    have hlt : i<l.length := mem_range.mp hi
    exact cyclicAt_set_ne (by omega) hj (by omega)
  rw [CyclicReads,hcongr]
  exact h

theorem CyclicReads.push (h : CyclicReads buf o l) (hl : l.length<buf.length) :
    CyclicReads (buf.set ((o+l.length)%buf.length) v) o (l++[v]) := by
  refine cyclicReads_append.mpr ⟨h.set hl le_rfl,cyclicReads_singleton.mpr ?_⟩
  have hself := cyclicAt_set_self (o := o) (v := v) hl
  have hshift := cyclicAt_add (buf.set ((o+l.length)%buf.length) v) o l.length 0
  rwa [Nat.add_zero,hself] at hshift

theorem cyclicReads_prefix (l l' : List α) : CyclicReads (l++l') 0 l := by
  rw [CyclicReads,cyclicSegment]
  apply ext_getElem (by simp)
  intro j _ hj
  have hlt : j<(l++l').length := by
    rw [length_append]
    omega
  rw [getElem_map,getElem_range,cyclicAt,Nat.zero_add,mod_eq_of_lt hlt,
    getD_eq_getElem?_getD,List.getElem?_append_left hj,List.getElem?_eq_getElem hj,
    Option.getD_some]

theorem mem_reduceOption_of_getD {β : Type} {slots : List (Option β)} {k : Nat} {x : β}
    (h : slots.getD k none=some x) : x ∈ slots.reduceOption := by
  rw [reduceOption_mem_iff]
  rw [getD_eq_getElem?_getD] at h
  cases hget : slots[k]? with
  | none =>
    rw [hget] at h
    cases h
  | some y =>
    rw [hget,Option.getD_some] at h
    rw [← h]
    exact mem_of_getElem? hget

theorem reduceOption_set_perm {β : Type} {slots : List (Option β)} {k : Nat} {x y : Option β} (hk : slots[k]?=some y) :
    ((slots.set k x).reduceOption++y.toList).Perm (slots.reduceOption++x.toList) := by
  induction slots generalizing k with
  | nil => simp at hk
  | cons z slots ih =>
    have hcons (w : Option β) (ws : List (Option β)) : (w::ws).reduceOption=w.toList++ws.reduceOption := by
      cases w <;> simp
    cases k with
    | zero =>
      obtain rfl : z=y := by simpa using hk
      rw [set_cons_zero,hcons,hcons,append_assoc z.toList]
      have hswap : (x.toList++slots.reduceOption).Perm (slots.reduceOption++x.toList) := perm_append_comm
      exact (hswap.append_right z.toList).trans perm_append_comm
    | succ k =>
      have hk' : slots[k]?=some y := by simpa using hk
      rw [set_cons_succ,hcons,hcons,append_assoc,append_assoc]
      exact (ih hk').append_left _
end P4Benchmarks.Lib
